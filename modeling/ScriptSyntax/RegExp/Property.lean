/-!
The Unicode properties, and the values of properties, that a pattern may name, by the edition that
first knows them.
-/

namespace ScriptSyntax
namespace RegExp
namespace Property

def binaryNames : List String :=
  ["ASCII", "ASCII_Hex_Digit", "AHex", "Alphabetic", "Alpha", "Any", "Assigned", "Bidi_Control",
   "Bidi_C", "Bidi_Mirrored", "Bidi_M", "Case_Ignorable", "CI", "Cased", "Changes_When_Casefolded",
   "CWCF", "Changes_When_Casemapped", "CWCM", "Changes_When_Lowercased", "CWL",
   "Changes_When_NFKC_Casefolded", "CWKCF", "Changes_When_Titlecased", "CWT",
   "Changes_When_Uppercased", "CWU", "Dash", "Default_Ignorable_Code_Point", "DI", "Deprecated",
   "Dep", "Diacritic", "Dia", "Emoji", "Emoji_Component", "Emoji_Modifier", "Emoji_Modifier_Base",
   "Emoji_Presentation", "Extender", "Ext", "Grapheme_Base", "Gr_Base", "Grapheme_Extend", "Gr_Ext",
   "Hex_Digit", "Hex", "IDS_Binary_Operator", "IDSB", "IDS_Trinary_Operator", "IDST", "ID_Continue",
   "IDC", "ID_Start", "IDS", "Ideographic", "Ideo", "Join_Control", "Join_C",
   "Logical_Order_Exception", "LOE", "Lowercase", "Lower", "Math", "Noncharacter_Code_Point",
   "NChar", "Pattern_Syntax", "Pat_Syn", "Pattern_White_Space", "Pat_WS", "Quotation_Mark", "QMark",
   "Radical", "Regional_Indicator", "RI", "Sentence_Terminal", "STerm", "Soft_Dotted", "SD",
   "Terminal_Punctuation", "Term", "Unified_Ideograph", "UIdeo", "Uppercase", "Upper",
   "Variation_Selector", "VS", "White_Space", "space", "XID_Continue", "XIDC", "XID_Start", "XIDS"]

/-- Short names of emoji properties, known from the eleventh edition on. -/
def emojiShortNames : List String := ["EBase", "EComp", "EMod", "EPres", "ExtPict"]

/-- Properties whose values are strings. -/
def stringNames : List String :=
  ["Basic_Emoji", "Emoji_Keycap_Sequence", "RGI_Emoji_Modifier_Sequence", "RGI_Emoji_Flag_Sequence",
   "RGI_Emoji_Tag_Sequence", "RGI_Emoji_ZWJ_Sequence", "RGI_Emoji"]

def generalCategories : List String :=
  ["Cased_Letter", "LC", "Close_Punctuation", "Pe", "Connector_Punctuation", "Pc", "Control", "Cc",
   "cntrl", "Currency_Symbol", "Sc", "Dash_Punctuation", "Pd", "Decimal_Number", "Nd", "digit",
   "Enclosing_Mark", "Me", "Final_Punctuation", "Pf", "Format", "Cf", "Initial_Punctuation", "Pi",
   "Letter", "L", "Letter_Number", "Nl", "Line_Separator", "Zl", "Lowercase_Letter", "Ll", "Mark",
   "M", "Combining_Mark", "Math_Symbol", "Sm", "Modifier_Letter", "Lm", "Modifier_Symbol", "Sk",
   "Nonspacing_Mark", "Mn", "Number", "N", "Open_Punctuation", "Ps", "Other", "C", "Other_Letter",
   "Lo", "Other_Number", "No", "Other_Punctuation", "Po", "Other_Symbol", "So",
   "Paragraph_Separator", "Zp", "Private_Use", "Co", "Punctuation", "P", "punct", "Separator", "Z",
   "Space_Separator", "Zs", "Spacing_Mark", "Mc", "Surrogate", "Cs", "Symbol", "S",
   "Titlecase_Letter", "Lt", "Unassigned", "Cn", "Uppercase_Letter", "Lu"]

/-- Scripts known from the start. -/
def scripts9 : List String :=
  ["Adlam", "Adlm", "Ahom", "Anatolian_Hieroglyphs", "Hluw", "Arabic", "Arab", "Armenian", "Armn",
   "Avestan", "Avst", "Balinese", "Bali", "Bamum", "Bamu", "Bassa_Vah", "Bass", "Batak", "Batk",
   "Bengali", "Beng", "Bhaiksuki", "Bhks", "Bopomofo", "Bopo", "Brahmi", "Brah", "Braille", "Brai",
   "Buginese", "Bugi", "Buhid", "Buhd", "Canadian_Aboriginal", "Cans", "Carian", "Cari",
   "Caucasian_Albanian", "Aghb", "Chakma", "Cakm", "Cham", "Cherokee", "Cher", "Common", "Zyyy",
   "Coptic", "Copt", "Qaac", "Cuneiform", "Xsux", "Cypriot", "Cprt", "Cyrillic", "Cyrl", "Deseret",
   "Dsrt", "Devanagari", "Deva", "Duployan", "Dupl", "Egyptian_Hieroglyphs", "Egyp", "Elbasan",
   "Elba", "Ethiopic", "Ethi", "Georgian", "Geor", "Glagolitic", "Glag", "Gothic", "Goth",
   "Grantha", "Gran", "Greek", "Grek", "Gujarati", "Gujr", "Gurmukhi", "Guru", "Han", "Hani",
   "Hangul", "Hang", "Hanunoo", "Hano", "Hatran", "Hatr", "Hebrew", "Hebr", "Hiragana", "Hira",
   "Imperial_Aramaic", "Armi", "Inherited", "Zinh", "Qaai", "Inscriptional_Pahlavi", "Phli",
   "Inscriptional_Parthian", "Prti", "Javanese", "Java", "Kaithi", "Kthi", "Kannada", "Knda",
   "Katakana", "Kana", "Kayah_Li", "Kali", "Kharoshthi", "Khar", "Khmer", "Khmr", "Khojki", "Khoj",
   "Khudawadi", "Sind", "Lao", "Laoo", "Latin", "Latn", "Lepcha", "Lepc", "Limbu", "Limb",
   "Linear_A", "Lina", "Linear_B", "Linb", "Lisu", "Lycian", "Lyci", "Lydian", "Lydi", "Mahajani",
   "Mahj", "Malayalam", "Mlym", "Mandaic", "Mand", "Manichaean", "Mani", "Marchen", "Marc",
   "Masaram_Gondi", "Gonm", "Meetei_Mayek", "Mtei", "Mende_Kikakui", "Mend", "Meroitic_Cursive",
   "Merc", "Meroitic_Hieroglyphs", "Mero", "Miao", "Plrd", "Modi", "Mongolian", "Mong", "Mro",
   "Mroo", "Multani", "Mult", "Myanmar", "Mymr", "Nabataean", "Nbat", "New_Tai_Lue", "Talu", "Newa",
   "Nko", "Nkoo", "Nushu", "Nshu", "Ogham", "Ogam", "Ol_Chiki", "Olck", "Old_Hungarian", "Hung",
   "Old_Italic", "Ital", "Old_North_Arabian", "Narb", "Old_Permic", "Perm", "Old_Persian", "Xpeo",
   "Old_South_Arabian", "Sarb", "Old_Turkic", "Orkh", "Oriya", "Orya", "Osage", "Osge", "Osmanya",
   "Osma", "Pahawh_Hmong", "Hmng", "Palmyrene", "Palm", "Pau_Cin_Hau", "Pauc", "Phags_Pa", "Phag",
   "Phoenician", "Phnx", "Psalter_Pahlavi", "Phlp", "Rejang", "Rjng", "Runic", "Runr", "Samaritan",
   "Samr", "Saurashtra", "Saur", "Sharada", "Shrd", "Shavian", "Shaw", "Siddham", "Sidd",
   "SignWriting", "Sgnw", "Sinhala", "Sinh", "Sora_Sompeng", "Sora", "Soyombo", "Soyo", "Sundanese",
   "Sund", "Syloti_Nagri", "Sylo", "Syriac", "Syrc", "Tagalog", "Tglg", "Tagbanwa", "Tagb",
   "Tai_Le", "Tale", "Tai_Tham", "Lana", "Tai_Viet", "Tavt", "Takri", "Takr", "Tamil", "Taml",
   "Tangut", "Tang", "Telugu", "Telu", "Thaana", "Thaa", "Thai", "Tibetan", "Tibt", "Tifinagh",
   "Tfng", "Tirhuta", "Tirh", "Ugaritic", "Ugar", "Vai", "Vaii", "Warang_Citi", "Wara", "Yi",
   "Yiii", "Zanabazar_Square", "Zanb"]

def scripts10 : List String :=
  ["Dogra", "Dogr", "Gunjala_Gondi", "Gong", "Hanifi_Rohingya", "Rohg", "Makasar", "Maka",
   "Medefaidrin", "Medf", "Old_Sogdian", "Sogo", "Sogdian", "Sogd"]

def scripts11 : List String :=
  ["Elymaic", "Elym", "Nandinagari", "Nand", "Nyiakeng_Puachue_Hmong", "Hmnp", "Wancho", "Wcho"]

def scripts12 : List String :=
  ["Chorasmian", "Chrs", "Diak", "Dives_Akuru", "Khitan_Small_Script", "Kits", "Yezi", "Yezidi"]

def scripts13 : List String :=
  ["Cypro_Minoan", "Cpmn", "Old_Uyghur", "Ougr", "Tangsa", "Tnsa", "Toto", "Vithkuqi", "Vith"]

def scripts14 : List String :=
  ["Hrkt", "Katakana_Or_Hiragana", "Kawi", "Nag_Mundari", "Nagm", "Unknown", "Zzzz"]

def scripts16 : List String :=
  ["Garay", "Gara", "Gurung_Khema", "Gukh", "Kirat_Rai", "Krai", "Ol_Onal", "Onao", "Sunuwar",
   "Sunu", "Todhri", "Todr", "Tulu_Tigalari", "Tutg"]

/-- The script names, each group under the edition that introduced it. -/
def scripts : List (Nat × List String) :=
  [(9, scripts9), (10, scripts10), (11, scripts11), (12, scripts12), (13, scripts13), (14, scripts14), (16, scripts16)]

def isBinary (edition : Nat) (name : String) : Bool :=
  binaryNames.contains name || (10 ≤ edition && name == "Extended_Pictographic") ||
    (11 ≤ edition && emojiShortNames.contains name)

def isOfStrings (name : String) : Bool := stringNames.contains name

def isGeneralCategory (value : String) : Bool := generalCategories.contains value

/-- Editions before the ninth know what the ninth knows. -/
def isScript (edition : Nat) (value : String) : Bool :=
  scripts.any fun group => group.1 ≤ max edition 9 && group.2.contains value

end Property
end RegExp
end ScriptSyntax
