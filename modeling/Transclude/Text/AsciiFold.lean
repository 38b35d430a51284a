import Transclude.Text.Blank

/-! The letters a to z, digits, hyphens and blanks left of a character once it is decomposed by
compatibility, its marks are dropped and it is lower-cased. All else vanishes. -/

namespace Transclude.Text

/-- Alphabets and digit rows laid out in order: first, last, and what the first one stands for. -/
def letterRuns : List (Nat × Nat × Char) := [
    (0x1D33, 0x1D3A, 'g'), (0x2074, 0x2079, '4'), (0x2080, 0x2089, '0'), (0x2096, 0x2099, 'k'),
    (0x2460, 0x2468, '1'), (0x2474, 0x247C, '1'), (0x2488, 0x2490, '1'), (0x249C, 0x24B5, 'a'),
    (0x24B6, 0x24CF, 'a'), (0x24D0, 0x24E9, 'a'), (0x32C0, 0x32C8, '1'), (0x3358, 0x3361, '0'),
    (0x33E0, 0x33E8, '1'), (0xFF10, 0xFF19, '0'), (0xFF21, 0xFF3A, 'a'), (0xFF41, 0xFF5A, 'a'),
    (0x1D400, 0x1D419, 'a'), (0x1D41A, 0x1D433, 'a'), (0x1D434, 0x1D44D, 'a'),
    (0x1D44E, 0x1D454, 'a'), (0x1D456, 0x1D467, 'i'), (0x1D468, 0x1D481, 'a'),
    (0x1D482, 0x1D49B, 'a'), (0x1D4A9, 0x1D4AC, 'n'), (0x1D4AE, 0x1D4B5, 's'),
    (0x1D4B6, 0x1D4B9, 'a'), (0x1D4BD, 0x1D4C3, 'h'), (0x1D4C5, 0x1D4CF, 'p'),
    (0x1D4D0, 0x1D4E9, 'a'), (0x1D4EA, 0x1D503, 'a'), (0x1D507, 0x1D50A, 'd'),
    (0x1D50D, 0x1D514, 'j'), (0x1D516, 0x1D51C, 's'), (0x1D51E, 0x1D537, 'a'),
    (0x1D53B, 0x1D53E, 'd'), (0x1D540, 0x1D544, 'i'), (0x1D54A, 0x1D550, 's'),
    (0x1D552, 0x1D56B, 'a'), (0x1D56C, 0x1D585, 'a'), (0x1D586, 0x1D59F, 'a'),
    (0x1D5A0, 0x1D5B9, 'a'), (0x1D5BA, 0x1D5D3, 'a'), (0x1D5D4, 0x1D5ED, 'a'),
    (0x1D5EE, 0x1D607, 'a'), (0x1D608, 0x1D621, 'a'), (0x1D622, 0x1D63B, 'a'),
    (0x1D63C, 0x1D655, 'a'), (0x1D656, 0x1D66F, 'a'), (0x1D670, 0x1D689, 'a'),
    (0x1D68A, 0x1D6A3, 'a'), (0x1D7CE, 0x1D7D7, '0'), (0x1D7D8, 0x1D7E1, '0'),
    (0x1D7E2, 0x1D7EB, '0'), (0x1D7EC, 0x1D7F5, '0'), (0x1D7F6, 0x1D7FF, '0'),
    (0x1F101, 0x1F10A, '0'), (0x1F110, 0x1F129, 'a'), (0x1F130, 0x1F149, 'a'),
    (0x1FBF0, 0x1FBF9, '0')]

/-- Single characters, listed behind the text they stand for. -/
def letterForms : List (String × String) := [
    ("-", "﹣－"), ("0", "⁰⓪🄀"), ("1", "¹⅟"), ("2", "²"), ("3", "³"),
    ("a", "ªÀÁÂÃÄÅàáâãäåĀāĂăĄąǍǎǞǟǠǡǺǻȀȁȂ"), ("a", "ȃȦȧᴬᵃḀḁẚẠạẢảẤấẦầẨẩẪẫẬậẮắẰằẲẳẴẵ"),
    ("a", "ẶặₐÅ㎂𝒜𝔄𝔸"), ("b", "ᴮᵇḂḃḄḅḆḇℬ𝔅𝔹"), ("c", "ÇçĆćĈĉĊċČčᶜḈḉℂ℃ℭⅭⅽꟲ𝒞🄫"),
    ("d", "ĎďᴰᵈḊḋḌḍḎḏḐḑḒḓⅅⅆⅮⅾ𝒟"), ("e", "ÈÉÊËèéêëĒēĔĕĖėĘęĚěȄȅȆȇȨȩᴱᵉḔḕḖḗ"),
    ("e", "ḘḙḚḛḜḝẸẹẺẻẼẽẾếỀềỂểỄễỆệₑℯℰⅇ"), ("f", "ᶠḞḟ℉ℱ㎌ꟳ𝒻"), ("g", "ĜĝĞğĠġĢģǦǧǴǵᵍḠḡℊ㎍𝒢"),
    ("h", "ĤĥȞȟʰḢḣḤḥḦḧḨḩḪḫẖₕℋℌℍℎ"), ("i", "ÌÍÎÏìíîïĨĩĪīĬĭĮįİǏǐȈȉȊȋᵢḬḭḮḯỈỉ"), ("i", "ỊịⁱℐℑℹⅈⅠⅰ"),
    ("j", "Ĵĵǰʲⅉⱼ𝒥"), ("k", "ĶķǨǩᵏḰḱḲḳḴḵK㏀𝒦"), ("l", "ĹĺĻļĽľĿŀˡḶḷḸḹḺḻḼḽℒℓⅬⅼ㎕"),
    ("m", "ᵐḾḿṀṁṂṃℳⅯⅿ㎛㏁"), ("n", "ÑñŃńŅņŇňŉǸǹṄṅṆṇṈṉṊṋⁿℕ"), ("o", "ºÒÓÔÕÖòóôõöŌōŎŏŐőƠơǑǒǪǫǬǭȌȍȎȏȪ"),
    ("o", "ȫȬȭȮȯȰȱᴼᵒṌṍṎṏṐṑṒṓỌọỎỏỐốỒồỔổỖỗỘ"), ("o", "ộỚớỜờỞởỠỡỢợₒℴ𝕆"), ("p", "ᴾᵖṔṕṖṗₚℙ"),
    ("q", "ℚꟴ𐞥"), ("r", "ŔŕŖŗŘřȐȑȒȓʳᴿᵣṘṙṚṛṜṝṞṟℛℜℝ🄬"), ("s", "ŚśŜŝŞşŠšſȘșˢṠṡṢṣṤṥṦṧṨṩẛₛ㎲🄪"),
    ("t", "ŢţŤťȚțᵀᵗṪṫṬṭṮṯṰṱẗₜ"), ("u", "ÙÚÛÜùúûüŨũŪūŬŭŮůŰűŲųƯưǓǔǕǖǗǘǙǚ"),
    ("u", "ǛǜȔȕȖȗᵁᵘᵤṲṳṴṵṶṷṸṹṺṻỤụỦủỨứỪừỬửỮ"), ("u", "ữỰự"), ("v", "ᵛᵥṼṽṾṿⅤⅴⱽ㎶"),
    ("w", "ŴŵʷᵂẀẁẂẃẄẅẆẇẈẉẘ㎼"), ("x", "ˣẊẋẌẍₓⅩⅹ"), ("y", "ÝýÿŶŷŸȲȳʸẎẏẙỲỳỴỵỶỷỸỹ"),
    ("z", "ŹźŻżŽžᶻẐẑẒẓẔẕℤℨ"), ("03", "↉"), ("10", "⑩⑽⒑㋉㍢㏩"), ("11", "⑪⑾⒒㋊㍣㏪"), ("12", "½⑫⑿⒓㋋㍤㏫"),
    ("13", "⅓⑬⒀⒔㍥㏬"), ("14", "¼⑭⒁⒕㍦㏭"), ("15", "⅕⑮⒂⒖㍧㏮"), ("16", "⅙⑯⒃⒗㍨㏯"), ("17", "⅐⑰⒄⒘㍩㏰"),
    ("18", "⅛⑱⒅⒙㍪㏱"), ("19", "⅑⑲⒆⒚㍫㏲"), ("20", "⑳⒇⒛㍬㏳"), ("21", "㉑㍭㏴"), ("22", "㉒㍮㏵"),
    ("23", "⅔㉓㍯㏶"), ("24", "㉔㍰㏷"), ("25", "⅖㉕㏸"), ("26", "㉖㏹"), ("27", "㉗㏺"), ("28", "㉘㏻"),
    ("29", "㉙㏼"), ("30", "㉚㏽"), ("31", "㉛㏾"), ("32", "㉜"), ("33", "㉝"), ("34", "¾㉞"), ("35", "⅗㉟"),
    ("36", "㊱"), ("37", "㊲"), ("38", "⅜㊳"), ("39", "㊴"), ("40", "㊵"), ("41", "㊶"), ("42", "㊷"),
    ("43", "㊸"), ("44", "㊹"), ("45", "⅘㊺"), ("46", "㊻"), ("47", "㊼"), ("48", "㊽"), ("49", "㊾"),
    ("50", "㊿"), ("56", "⅚"), ("58", "⅝"), ("78", "⅞"), ("ac", "℀"), ("am", "㏂㏟"), ("as", "℁"),
    ("au", "㍳"), ("bq", "㏃"), ("cc", "㏄"), ("cd", "㏅🄭"), ("cm", "㎝"), ("co", "℅㏇"), ("cu", "℆"),
    ("da", "㍲"), ("db", "㏈"), ("dj", "🆐"), ("dl", "㎗"), ("dm", "㍷"), ("dz", "ǄǅǆǱǲǳ"), ("ev", "㋎"),
    ("ff", "ﬀ"), ("fi", "ﬁ"), ("fl", "ﬂ"), ("fm", "㎙"), ("gb", "㎇"), ("gy", "㏉"), ("ha", "㏊"),
    ("hg", "㋌"), ("hp", "㏋"), ("hv", "🅊"), ("hz", "㎐"), ("ii", "Ⅱⅱ"), ("ij", "Ĳĳ"), ("in", "㏌"),
    ("iu", "㍺"), ("iv", "Ⅳⅳ"), ("ix", "Ⅸⅸ"), ("ka", "㎄"), ("kb", "㎅"), ("kg", "㎏"), ("kk", "㏍"),
    ("kl", "㎘"), ("km", "㎞㏎"), ("kt", "㏏"), ("kv", "㎸"), ("kw", "㎾"), ("lj", "Ǉǈǉ"), ("lm", "㏐"),
    ("ln", "㏑"), ("lx", "㏓"), ("m2", "㎡"), ("m3", "㎥"), ("ma", "㎃"), ("mb", "㎆㏔"), ("mc", "🅪"),
    ("md", "🅫"), ("mg", "㎎"), ("ml", "㎖"), ("mm", "㎜"), ("mr", "🅬"), ("ms", "㎧㎳"), ("mv", "㎷㎹🅋"),
    ("mw", "㎽㎿"), ("na", "㎁"), ("nf", "㎋"), ("nj", "Ǌǋǌ"), ("nm", "㎚"), ("no", "№"), ("ns", "㎱"),
    ("nv", "㎵"), ("nw", "㎻"), ("ov", "㍵"), ("pa", "㎀㎩"), ("pc", "㍶"), ("pf", "㎊"), ("ph", "㏗"),
    ("pm", "㏘"), ("pr", "㏚"), ("ps", "㎰"), ("pv", "㎴"), ("pw", "㎺"), ("rs", "₨"), ("sd", "🅌"),
    ("sm", "℠"), ("sr", "㏛"), ("ss", "🅍"), ("st", "ﬅﬆ"), ("sv", "㏜"), ("tm", "™"), ("vi", "Ⅵⅵ"),
    ("vm", "㏞"), ("wb", "㏝"), ("wc", "🅏"), ("wz", "🄮"), ("xi", "Ⅺⅺ"), ("110", "⅒"), ("bar", "㍴"),
    ("cal", "㎈"), ("ckg", "㏆"), ("cm2", "㎠"), ("cm3", "㎤"), ("dm2", "㍸"), ("dm3", "㍹"),
    ("erg", "㋍"), ("fax", "℻"), ("ffi", "ﬃ"), ("ffl", "ﬄ"), ("gal", "㏿"), ("ghz", "㎓"),
    ("gpa", "㎬"), ("hpa", "㍱"), ("iii", "Ⅲⅲ"), ("khz", "㎑"), ("km2", "㎢"), ("km3", "㎦"),
    ("kpa", "㎪"), ("log", "㏒"), ("ltd", "㋏"), ("mhz", "㎒"), ("mil", "㏕"), ("mm2", "㎟"),
    ("mm3", "㎣"), ("mol", "㏖"), ("mpa", "㎫"), ("ms2", "㎨"), ("ppm", "㏙"), ("ppv", "🅎"),
    ("pte", "㉐"), ("rad", "㎭"), ("tel", "℡"), ("thz", "㎔"), ("vii", "Ⅶⅶ"), ("xii", "Ⅻⅻ"),
    ("kcal", "㎉"), ("rads", "㎮"), ("viii", "Ⅷⅷ"), ("rads2", "㎯")]

/-- Characters that decompose to a blank and marks, or to blanks and letters that vanish. -/
def blankForms : List (Nat × Nat) := [
    (0xA8, 0xA8), (0xAF, 0xAF), (0xB4, 0xB4), (0xB8, 0xB8), (0x2D8, 0x2DD), (0x37A, 0x37A),
    (0x384, 0x385), (0x1FBD, 0x1FBD), (0x1FBF, 0x1FC1), (0x1FCD, 0x1FCF), (0x1FDD, 0x1FDF),
    (0x1FED, 0x1FEE), (0x1FFD, 0x1FFE), (0x2017, 0x2017), (0x203E, 0x203E), (0x309B, 0x309C),
    (0xFC5E, 0xFC63), (0xFDFA, 0xFDFB), (0xFE49, 0xFE4C), (0xFE70, 0xFE70), (0xFE72, 0xFE72),
    (0xFE74, 0xFE74), (0xFE76, 0xFE76), (0xFE78, 0xFE78), (0xFE7A, 0xFE7A), (0xFE7C, 0xFE7C),
    (0xFE7E, 0xFE7E), (0xFFE3, 0xFFE3)]

/-- The folded form of one character: small letters, digits, `-` and the plain space only. -/
def foldChar (c : Char) : Text :=
  if isBlank c then [' ']
  else if c.toNat < 0x80 then
    let small := c.toLower
    if small.isLower || small.isDigit || small == '-' then [small] else []
  else if inRanges blankForms c then [' ']
  else match letterRuns.find? fun (first, last, _) => first ≤ c.toNat && c.toNat ≤ last with
    | some (first, _, letter) => [Char.ofNat (letter.toNat + (c.toNat - first))]
    | none =>
      match letterForms.find? fun (_, forms) => forms.text.elem c with
      | some (folded, _) => folded.text
      | none => []

def fold (s : Text) : Text := s.flatMap foldChar

end Transclude.Text
