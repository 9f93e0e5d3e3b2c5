import TelegramDesktop.ByteStrings
import TelegramDesktop.WallPaper
import Mathlib.Data.List.GetD
import Mathlib.Data.List.ReduceOption

/-!
# Sharing wallpapers

What a link or the settings of a wallpaper tell is read again.  A value that is written
only where it is not zero, but read with another default, is not.
-/

namespace TelegramDesktop

open List WallPaper Option

namespace Text

variable {ch : Char}

theorem not_isWhitespace_of_isDigit (digit : ch.isDigit = true) :
    ch.isWhitespace = false := by
  simp only [Char.isDigit, Bool.and_eq_true, decide_eq_true_eq, ge_iff_le] at digit
  have above : '0' ≤ ch := digit.1
  simp only [Char.isWhitespace, Bool.or_eq_false_iff, decide_eq_false_iff_not]
  refine ⟨⟨⟨?_, ?_⟩, ?_⟩, ?_⟩ <;>
  · rintro rfl
    revert above
    decide

theorem trimmed_eq_self {text : Text} (plain : ∀ ch ∈ text, ch.isWhitespace = false) :
    text.trimmed = text := by
  have keeps : ∀ text : Text, (∀ ch ∈ text, ch.isWhitespace = false) →
      text.dropWhile Char.isWhitespace = text := by
    intro text plain
    cases text with
    | nil => rfl
    | cons first rest => rw [dropWhile_cons_of_neg (by simp [plain first])]
  rw [trimmed, keeps text plain, keeps, reverse_reverse]
  exact fun ch member => plain ch (mem_reverse.mp member)

theorem isDigit_of_mem_toDigits {value : Nat} (member : ch ∈ Nat.toDigits 10 value) :
    ch.isDigit = true :=
  Nat.isDigit_of_mem_toDigits (by decide) (by decide) member

theorem digits_toDigits (value : Nat) : digits (Nat.toDigits 10 value) = some value := by
  have all : (Nat.toDigits 10 value).all Char.isDigit = true :=
    all_eq_true.mpr fun _ => isDigit_of_mem_toDigits
  rw [digits, if_pos ⟨Nat.toDigits_ne_nil, all⟩, Nat.ofDigitChars_toDigits (by decide) (by decide)]

theorem signed_number (value : Int) : signed (number value) = some value := by
  cases value with
  | ofNat value =>
    have digits := digits_toDigits value
    have first : ∀ ch ∈ Nat.toDigits 10 value, ch.isDigit = true := fun _ =>
      isDigit_of_mem_toDigits
    rw [number]
    generalize Nat.toDigits 10 value = text at digits first
    unfold signed
    split
    · exact absurd (first '-' mem_cons_self) (by decide)
    · exact absurd (first '+' mem_cons_self) (by decide)
    · rw [digits]
      rfl
  | negSucc value =>
    rw [number, signed, digits_toDigits]
    rfl

theorem mem_number {value : Int} (member : ch ∈ number value) :
    ch = '-' ∨ ch.isDigit = true := by
  cases value with
  | ofNat value => exact .inr (isDigit_of_mem_toDigits member)
  | negSucc value =>
    rcases mem_cons.mp member with rfl | member
    · exact .inl rfl
    · exact .inr (isDigit_of_mem_toDigits member)

theorem toInt_number {value : Int} (above : -2 ^ 31 ≤ value) (below : value < 2 ^ 31) :
    toInt (number value) = some value := by
  have plain : ∀ ch ∈ number value, ch.isWhitespace = false := by
    intro ch member
    rcases mem_number member with rfl | digit
    · decide
    · exact not_isWhitespace_of_isDigit digit
  rw [toInt, trimmed_eq_self plain, signed_number, filter_some, if_pos]
  simp only [Bool.and_eq_true, decide_eq_true_eq]
  exact ⟨above, below⟩

theorem join_cons_cons (separator : Char) (first second : Text) (rest : List Text) :
    join separator (first :: second :: rest) =
      first ++ separator :: join separator (second :: rest) := by
  simp [join, intercalate]

theorem join_singleton (separator : Char) (text : Text) : join separator [text] = text := by
  simp [join, intercalate]

variable {texts : List Text} {separator : Char}

theorem mem_join
    (member : ch ∈ join separator texts) : ch = separator ∨ ∃ text ∈ texts, ch ∈ text := by
  induction texts with
  | nil => cases member
  | cons first texts ih =>
    cases texts with
    | nil =>
      rw [join_singleton] at member
      exact .inr ⟨first, mem_cons_self, member⟩
    | cons second texts =>
      rw [join_cons_cons, mem_append, mem_cons] at member
      rcases member with member | rfl | member
      · exact .inr ⟨first, mem_cons_self, member⟩
      · exact .inl rfl
      · refine (ih member).imp_right ?_
        rintro ⟨text, there, inside⟩
        exact ⟨text, mem_cons_of_mem _ there, inside⟩

theorem length_join {width : Nat}
    (widths : ∀ text ∈ texts, text.length = width) (some : texts ≠ []) :
    (join separator texts).length + 1 = texts.length * (width + 1) := by
  induction texts with
  | nil => exact absurd rfl some
  | cons first texts ih =>
    have isWidth := widths first mem_cons_self
    cases texts with
    | nil => simp [join_singleton, isWidth]
    | cons second texts =>
      have rest := ih (fun text member => widths text (mem_cons_of_mem _ member)) (cons_ne_nil _ _)
      have more : (first :: second :: texts).length = (second :: texts).length + 1 := rfl
      rw [join_cons_cons, length_append, length_cons, rest, isWidth, more, add_mul, one_mul]
      omega

theorem drop_join {width : Nat}
    (widths : ∀ text ∈ texts, text.length = width) {place : Nat} (inside : place < texts.length) :
    (join separator texts).drop (place * (width + 1)) = join separator (texts.drop place) := by
  induction place generalizing texts with
  | zero => simp
  | succ place ih =>
    cases texts with
    | nil => cases inside
    | cons first texts =>
      cases texts with
      | nil =>
        rw [length_singleton] at inside
        omega
      | cons second texts =>
        have shift : (place + 1) * (width + 1) =
            (first ++ [separator]).length + place * (width + 1) := by
          rw [add_mul, one_mul, length_append, length_singleton,
            widths first mem_cons_self, add_comm]
        rw [join_cons_cons, append_cons, shift, drop_length_add_append, drop_succ_cons]
        rw [length_cons] at inside
        exact ih (fun text member => widths text (mem_cons_of_mem _ member)) (by omega)

end Text

namespace QColor

theorem hex_spec : ∀ value ∈ range 16,
    isHex (hex value) = true ∧ decimal (hex value) = value := by
  decide

theorem hex_spec_of_lt {value : Nat} (below : value < 16) :
    isHex (hex value) = true ∧ decimal (hex value) = value :=
  hex_spec value (mem_range.mpr below)

theorem ofNat_halves (value : UInt8) :
    UInt8.ofNat (value.toNat / 16 * 0x10 + value.toNat % 16) = value := by
  rw [Nat.div_add_mod', UInt8.ofNat_toNat]

theorem hex_isAlphanum : ∀ value ∈ range 16, (hex value).isAlphanum = true := by
  decide

theorem isAlphanum_of_mem_toString {color : QColor} {ch : Char} (member : ch ∈ color.toString) :
    ch.isAlphanum = true := by
  have halves : ∀ value : UInt8, ch ∈ componentToString value → ch.isAlphanum = true := by
    intro value there
    have below := value.toNat_lt
    rcases mem_pair.mp there with rfl | rfl
    · exact hex_isAlphanum _ (mem_range.mpr (by omega))
    · exact hex_isAlphanum _ (mem_range.mpr (by omega))
  rcases mem_append.mp member with member | member
  · exact (mem_append.mp member).elim (halves _) (halves _)
  · exact halves _ member

theorem length_toString (color : QColor) : color.toString.length = 6 := rfl

theorem fromString_toString {color : QColor} (full : color.alpha = 255) :
    fromString color.toString = some color := by
  have halves : ∀ value : UInt8, isHex (hex (value.toNat / 16)) = true ∧
      isHex (hex (value.toNat % 16)) = true ∧
      decimal (hex (value.toNat / 16)) = value.toNat / 16 ∧
      decimal (hex (value.toNat % 16)) = value.toNat % 16 := by
    intro value
    have below := value.toNat_lt
    obtain ⟨highHex, high⟩ := hex_spec_of_lt (show value.toNat / 16 < 16 by omega)
    obtain ⟨lowHex, low⟩ := hex_spec_of_lt (show value.toNat % 16 < 16 by omega)
    exact ⟨highHex, lowHex, high, low⟩
  obtain ⟨red, green, blue, alpha⟩ := color
  obtain ⟨redHigh, redLow, isRedHigh, isRedLow⟩ := halves red
  obtain ⟨greenHigh, greenLow, isGreenHigh, isGreenLow⟩ := halves green
  obtain ⟨blueHigh, blueLow, isBlueHigh, isBlueLow⟩ := halves blue
  have valid : (toString ⟨red, green, blue, alpha⟩).any (fun ch => !isHex ch) = false := by
    simp [toString, componentToString, redHigh, redLow, greenHigh, greenLow, blueHigh, blueLow]
  rw [fromString, if_neg (not_not.mpr (length_toString _)), if_neg (by rw [valid]; decide)]
  simp only [toString, componentToString, componentFromString, cons_append, nil_append,
    zero_mul, zero_add, getD_cons_zero, getD_cons_succ, isRedHigh, isRedLow, isGreenHigh,
    isGreenLow, isBlueHigh, isBlueLow, ofNat_halves]
  rw [← show alpha = 255 from full]

theorem take_join (separator : Char) (color : QColor) (colors : List QColor) :
    (Text.join separator ((color :: colors).map toString)).take 6 = color.toString := by
  cases colors with
  | nil => rw [map_singleton, Text.join_singleton, take_of_length_le (by rfl)]
  | cons second colors =>
    rw [map_cons, map_cons, Text.join_cons_cons]
    exact take_left' (length_toString color)

variable {colors : List QColor}

theorem drop_join_colors (separator : Char) {place : Nat} (inside : place < colors.length) :
    (Text.join separator (colors.map toString)).drop (place * 7) =
      Text.join separator ((colors.drop place).map toString) := by
  have widths : ∀ text ∈ colors.map toString, text.length = 6 := by
    intro text member
    obtain ⟨color, -, rfl⟩ := mem_map.mp member
    exact length_toString color
  rw [map_drop]
  exact Text.drop_join widths (by rwa [length_map])

theorem getD_separator (separator : Char) {place : Nat} (inside : place + 1 < colors.length) :
    (Text.join separator (colors.map toString)).getD (place * 7 + 6) ' ' = separator := by
  rw [getD_eq_getElem?_getD, ← getElem?_drop, drop_join_colors separator (by omega),
    drop_eq_getElem_cons (show place < colors.length by omega),
    drop_eq_getElem_cons inside, map_cons, map_cons, Text.join_cons_cons]
  rfl

theorem colorAt_join (full : ∀ color ∈ colors, color.alpha = 255)
    {place : Nat} (inside : place < colors.length) :
    colorAt (stringFromColors colors) colors.length place = some colors[place] := by
  unfold colorAt
  rw [if_neg]
  · rw [stringFromColors, drop_join_colors _ inside, drop_eq_getElem_cons inside, take_join]
    exact fromString_toString (full _ (getElem_mem inside))
  · rintro ⟨more, notTilde, notDash⟩
    rw [stringFromColors, getD_separator _ more] at notTilde notDash
    split_ifs at notTilde notDash with many
    · exact notTilde rfl
    · exact notDash.elim many fun other => other rfl

theorem colorsFromString_stringFromColors (some : colors ≠ [])
    (few : colors.length ≤ kMaxColors) (full : ∀ color ∈ colors, color.alpha = 255) :
    colorsFromString (stringFromColors colors) = colors := by
  have widths : ∀ text ∈ colors.map toString, text.length = 6 := by
    intro text member
    obtain ⟨color, -, rfl⟩ := mem_map.mp member
    exact length_toString color
  have size : (stringFromColors colors).length + 1 = (colors.map toString).length * 7 :=
    Text.length_join widths (by simpa using some)
  rw [length_map] at size
  simp only [kMaxColors] at few
  have count : (stringFromColors colors).length / 6 = colors.length := by omega
  have found : (range colors.length).mapM
      (colorAt (stringFromColors colors) colors.length) = Option.some colors := by
    rw [mapM_eq_some_map fun place => colors.getD place ⟨0, 0, 0, 255⟩]
    · congr 1
      apply ext_getElem
      · simp
      · intro place _ inside
        rw [getElem_map, getElem_range, getD_eq_getElem _ _ inside]
    · intro place member
      have inside := mem_range.mp member
      rw [colorAt_join full inside, getD_eq_getElem _ _ inside]
  unfold colorsFromString
  rw [count, if_neg, found, getD_some]
  simp only [kMaxColors]
  omega

theorem serialize_eq (color : QColor) :
    color.serialize = color.red.toNat * 65536 + color.green.toNat * 256 + color.blue.toNat := by
  have green := color.green.toNat_lt
  have blue := color.blue.toNat_lt
  have low : color.green.toNat <<< 8 < 2 ^ 16 := by
    rw [Nat.shiftLeft_eq]
    omega
  have high : color.red.toNat <<< 16 ||| color.green.toNat <<< 8 =
      (color.red.toNat * 256 + color.green.toNat) <<< 8 := by
    rw [← Nat.shiftLeft_add_eq_or_of_lt low, Nat.shiftLeft_eq, Nat.shiftLeft_eq, Nat.shiftLeft_eq]
    omega
  rw [serialize, high, ← Nat.shiftLeft_add_eq_or_of_lt (by omega), Nat.shiftLeft_eq]
  omega

theorem fromSerialized_serialize {color : QColor} (full : color.alpha = 255) :
    fromSerialized color.serialize = color := by
  have red := color.red.toNat_lt
  have green := color.green.toNat_lt
  have blue := color.blue.toNat_lt
  have low : ∀ value, value &&& 0xFF = value % 256 := fun value =>
    Nat.and_two_pow_sub_one_eq_mod value 8
  have isRed : color.serialize >>> 16 &&& 0xFF = color.red.toNat := by
    rw [low, Nat.shiftRight_eq_div_pow, serialize_eq]
    omega
  have isGreen : color.serialize >>> 8 &&& 0xFF = color.green.toNat := by
    rw [low, Nat.shiftRight_eq_div_pow, serialize_eq]
    omega
  have isBlue : color.serialize &&& 0xFF = color.blue.toNat := by
    rw [low, serialize_eq]
    omega
  obtain ⟨red, green, blue, alpha⟩ := color
  rw [fromSerialized, isRed, isGreen, isBlue, ← show alpha = 255 from full]
  simp

end QColor

/-- Small letters in the name, and nothing that is encoded in the value. -/
def PlainParam (param : Text × Text) : Prop :=
  (∀ ch ∈ param.1, ch.isLower = true ∨ ch = '_') ∧
    ∀ ch ∈ param.2, ch.isAlphanum = true ∨ ch = '-' ∨ ch = '~'

/-- The value of a parameter, which is empty where there is none. -/
def valueOf (params : List (Text × Text)) (name : Text) : Text :=
  ((params.find? fun param => param.1 = name).map Prod.snd).getD []

/-- `url_parse_params`, of which it is known that plain parameters are told apart. -/
structure UrlParser where
  value : Text → Text → Text
  value_join : ∀ params : List (Text × Text), (params.map Prod.fst).Nodup →
    (∀ param ∈ params, PlainParam param) → ∀ name,
      value (Text.join '&' (params.map WallPaper.paramText)) name = valueOf params name

namespace UrlParser

/-- A parameter is split at its first `=`. -/
def splitParam (text : Text) : Text × Text :=
  (text.takeWhile (· ≠ '='), (text.dropWhile (· ≠ '=')).drop 1)

theorem splitParam_paramText {param : Text × Text} (plain : PlainParam param) :
    splitParam (paramText param) = param := by
  have before : ∀ ch ∈ param.1, decide (ch ≠ '=') = true := by
    intro ch member
    apply decide_eq_true
    rintro rfl
    exact absurd (plain.1 _ member) (by decide)
  rw [splitParam, paramText, takeWhile_append_of_pos before, dropWhile_append_of_pos before]
  simp

theorem notMem_paramText {param : Text × Text} (plain : PlainParam param) :
    '&' ∉ paramText param := by
  rw [paramText, mem_append, mem_cons, not_or, not_or]
  refine ⟨fun member => ?_, by decide, fun member => ?_⟩
  · exact absurd (plain.1 _ member) (by decide)
  · exact absurd (plain.2 _ member) (by decide)

/-- A parser that decodes nothing. -/
instance : Inhabited UrlParser where
  default := {
    value := fun text name => valueOf ((text.splitOn '&').map splitParam) name
    value_join := by
      intro params _ plain name
      cases params with
      | nil =>
        by_cases none : name = []
        · subst none
          rfl
        · have other : ¬([] : Text) = name := fun same => none same.symm
          simp [Text.join, valueOf, splitParam, other]
      | cons first params =>
        have split : (Text.join '&' ((first :: params).map WallPaper.paramText)).splitOn '&' =
            (first :: params).map WallPaper.paramText := by
          apply List.splitOn_intercalate
          · intro text member
            obtain ⟨param, there, rfl⟩ := List.mem_map.mp member
            exact notMem_paramText (plain param there)
          · simp
        rw [split, List.map_map]
        congr 1
        nth_rewrite 2 [← List.map_id (first :: params)]
        exact List.map_congr_left fun param there => splitParam_paramText (plain param there) }

end UrlParser

/-- What is seen of a wallpaper. -/
structure WallPaperLook where
  blurred : Bool
  backgroundColors : List QColor
  intensity : Int
  gradientRotation : Int
  deriving DecidableEq

def WallPaper.look (paper : WallPaper) : WallPaperLook :=
  ⟨paper.blurred, paper.backgroundColors, paper.intensity, paper.gradientRotation⟩

/-- A pattern with opaque colors, whose slug is not a text of colors. -/
structure PatternPaper extends WallPaper where
  isPattern : flags.isPattern = true
  notColors : QColor.colorsFromString slug = []
  fewColors : backgroundColors.length ≤ 4
  fullColors : ∀ color ∈ backgroundColors, color.alpha = 255
  intensityBounds : -100 ≤ intensity ∧ intensity ≤ 100
  rotationBounds : 0 ≤ rotation ∧ rotation ≤ 315
  rotationStep : 45 ∣ rotation

namespace PatternPaper

variable (paper : PatternPaper)

/-- What is transmitted for up to four colors.  The rotation has the flag of the second
one, and the intensity has none. -/
theorem mtpSettings_eq :
    paper.mtpSettings =
      { blur := paper.blurred
        backgroundColor := paper.backgroundColors[0]?.map QColor.serialize
        secondBackgroundColor := paper.backgroundColors[1]?.map QColor.serialize
        thirdBackgroundColor := paper.backgroundColors[2]?.map QColor.serialize
        fourthBackgroundColor := paper.backgroundColors[3]?.map QColor.serialize
        intensity := none
        rotation := paper.backgroundColors[1]?.map fun _ => paper.rotation } := by
  obtain ⟨⟨id, accessHash, ownerId, flags, slug, colors, rotation, intensity, blurred, document⟩,
    -, -, few, -, -, -, -⟩ := paper
  rcases colors with _ | ⟨first, _ | ⟨second, _ | ⟨third, _ | ⟨fourth, _ | ⟨fifth, rest⟩⟩⟩⟩⟩
  · cases blurred <;> rfl
  · cases blurred <;> rfl
  · cases blurred <;> rfl
  · cases blurred <;> rfl
  · cases blurred <;> rfl
  · simp only [length_cons] at few
    omega

theorem colorsFromMTP_mtpSettings : colorsFromMTP paper.mtpSettings = paper.backgroundColors := by
  have back : ∀ color ∈ paper.backgroundColors, QColor.fromSerialized color.serialize = color :=
    fun color member => QColor.fromSerialized_serialize (paper.fullColors color member)
  have few := paper.fewColors
  rw [mtpSettings_eq]
  generalize paper.backgroundColors = colors at back few
  rcases colors with _ | ⟨first, _ | ⟨second, _ | ⟨third, _ | ⟨fourth, _ | ⟨fifth, rest⟩⟩⟩⟩⟩
  · rfl
  · simpa [colorsFromMTP] using back
  · simpa [colorsFromMTP] using back
  · simpa [colorsFromMTP] using back
  · simpa [colorsFromMTP] using back
  · simp only [length_cons] at few
    omega

/-- The wallpaper that another client receives. -/
def received (userId : UInt64) (document : Nat) : Option WallPaper :=
  WallPaper.create userId
    { id := paper.id
      accessHash := paper.accessHash
      flags := paper.flags
      slug := paper.slug
      document := document
      checkWallPaperProperties := true
      settings := some paper.mtpSettings }

theorem rotation_kept_iff {length : Nat} {rotation : Int} :
    ((if length < 3 then (if length = 2 then rotation else 0) else 0) =
      if length < 3 then rotation else 0) ↔ rotation = 0 ∨ 2 ≤ length := by
  split_ifs with few two
  · exact iff_of_true rfl (.inr (by omega))
  · omega
  · exact iff_of_true rfl (.inr (by omega))

theorem look_received_iff (userId : UInt64) (document : Nat) :
    (paper.received userId document).map look = some paper.look ↔
      paper.intensity = 50 ∧ (paper.rotation = 0 ∨ 2 ≤ paper.backgroundColors.length) := by
  have colors := paper.colorsFromMTP_mtpSettings
  have second : (paper.backgroundColors[1]?.map fun _ => paper.rotation).getD 0 =
      if 2 ≤ paper.backgroundColors.length then paper.rotation else 0 := by
    split_ifs with gradient
    · rw [getElem?_eq_getElem (by omega)]
      rfl
    · rw [getElem?_eq_none (by omega)]
      rfl
  have rotation : (if paper.backgroundColors.length < 3 then
      (paper.backgroundColors[1]?.map fun _ => paper.rotation).getD 0 else 0) =
        if paper.backgroundColors.length < 3 then
          (if paper.backgroundColors.length = 2 then paper.rotation else 0) else 0 := by
    rw [second]
    split_ifs <;> omega
  rw [received, create, if_pos rfl, map_some, some.injEq,
    elim_some, applySettings, if_pos paper.isPattern]
  simp only [look, gradientRotation, WallPaperLook.mk.injEq, colors]
  rw [mtpSettings_eq]
  simp only [getD_none, true_and, rotation, rotation_kept_iff, kDefaultIntensity]
  rw [eq_comm]

theorem plain_shareParams : ∀ param ∈ paper.shareParams, PlainParam param := by
  have lower : ["bg_color".toList, "intensity".toList, "rotation".toList, "mode".toList].all
      (fun name => name.all fun ch => ch.isLower || ch == '_') = true := by
    decide
  have names : ∀ name ∈ ["bg_color".toList, "intensity".toList, "rotation".toList, "mode".toList],
      ∀ ch ∈ name, ch.isLower = true ∨ ch = '_' := by
    intro name listed ch member
    have small := all_eq_true.mp (all_eq_true.mp lower name listed) ch member
    rwa [Bool.or_eq_true, beq_iff_eq] at small
  have colors : ∀ ch ∈ QColor.stringFromColors paper.backgroundColors,
      ch.isAlphanum = true ∨ ch = '-' ∨ ch = '~' := by
    intro ch member
    rcases Text.mem_join member with same | ⟨text, there, inside⟩
    · split_ifs at same
      · exact .inr (.inr same)
      · exact .inr (.inl same)
    · obtain ⟨color, -, rfl⟩ := mem_map.mp there
      exact .inl (QColor.isAlphanum_of_mem_toString inside)
  have numbers : ∀ value, ∀ ch ∈ Text.number value,
      ch.isAlphanum = true ∨ ch = '-' ∨ ch = '~' := by
    intro value ch member
    rcases Text.mem_number member with rfl | digit
    · exact .inr (.inl rfl)
    · exact .inl (by rw [Char.isAlphanum, digit, Bool.or_true])
  intro param member
  unfold shareParams at member
  simp only [mem_append, mem_ite_nil_right, mem_singleton] at member
  rcases member with (⟨-, ⟨-, rfl⟩ | ⟨-, rfl⟩⟩ | ⟨-, rfl⟩) | ⟨-, rfl⟩
  · exact ⟨names _ (by simp), colors⟩
  · exact ⟨names _ (by simp), numbers _⟩
  · exact ⟨names _ (by simp), numbers _⟩
  · have value : "blur".toList.all Char.isAlphanum = true := by decide
    exact ⟨names _ (by simp), fun ch member => .inl (all_eq_true.mp value ch member)⟩

theorem nodup_shareParams : (paper.shareParams.map Prod.fst).Nodup := by
  have all : ["bg_color".toList, "intensity".toList, "rotation".toList, "mode".toList].Nodup := by
    decide
  apply Nodup.sublist _ all
  unfold shareParams
  rw [if_pos paper.isPattern]
  split_ifs <;>
  · simp only [map_append, map_cons, map_nil]
    decide

theorem value_shareQuery (parser : UrlParser) (linked : paper.slug ≠ []) (name : Text) :
    parser.value paper.shareQuery name = valueOf paper.shareParams name := by
  rw [shareQuery, if_neg linked,
    parser.value_join _ paper.nodup_shareParams paper.plain_shareParams]

theorem valueOf_shareParams :
    valueOf paper.shareParams "bg_color".toList =
      (if paper.backgroundColors ≠ [] then QColor.stringFromColors paper.backgroundColors
        else []) ∧
    valueOf paper.shareParams "intensity".toList =
      (if paper.intensity ≠ 0 then Text.number paper.intensity else []) ∧
    valueOf paper.shareParams "rotation".toList =
      (if paper.rotation ≠ 0 ∧ paper.backgroundColors.length = 2 then Text.number paper.rotation
        else []) ∧
    valueOf paper.shareParams "mode".toList = (if paper.blurred then "blur".toList else []) ∧
    valueOf paper.shareParams "gradient".toList = [] ∧
    valueOf paper.shareParams "color".toList = [] ∧
    valueOf paper.shareParams "slug".toList = [] := by
  unfold shareParams
  rw [if_pos paper.isPattern]
  split_ifs <;> exact ⟨rfl, rfl, rfl, rfl, rfl, rfl, rfl⟩

variable {params : Text → Text}

theorem withUrlParams_blurred
    (mode : params "mode".toList = if paper.blurred then "blur".toList else []) :
    (paper.withUrlParams params).blurred = paper.blurred := by
  rw [withUrlParams, mode]
  cases paper.blurred <;> rfl

theorem withUrlParams_colors
    (colors : params "bg_color".toList =
      if paper.backgroundColors ≠ [] then QColor.stringFromColors paper.backgroundColors else [])
    (gradient : params "gradient".toList = []) (color : params "color".toList = [])
    (slug : params "slug".toList = []) :
    (paper.withUrlParams params).backgroundColors = paper.backgroundColors := by
  have none : QColor.colorsFromString [] = [] := rfl
  rw [withUrlParams, colors, gradient, color, slug]
  by_cases empty : paper.backgroundColors = []
  · simp [firstColors, paper.notColors, none, empty]
  · have back := QColor.colorsFromString_stringFromColors empty paper.fewColors paper.fullColors
    rw [if_pos empty, firstColors, if_pos paper.notColors, firstColors, back, if_neg empty]

theorem withUrlParams_intensity
    (intensity : params "intensity".toList =
      if paper.intensity ≠ 0 then Text.number paper.intensity else []) :
    (paper.withUrlParams params).intensity =
      if paper.intensity ≠ 0 then paper.intensity else kDefaultIntensity := by
  obtain ⟨above, below⟩ := paper.intensityBounds
  rw [withUrlParams, intensity]
  split_ifs
  · rw [Text.toInt_number (by omega) (by omega)]
    exact if_pos ⟨above, by omega⟩
  · rfl

theorem withUrlParams_rotation
    (rotation : params "rotation".toList =
      if paper.rotation ≠ 0 ∧ paper.backgroundColors.length = 2 then Text.number paper.rotation
      else []) :
    (paper.withUrlParams params).rotation =
      if paper.backgroundColors.length = 2 then paper.rotation else 0 := by
  obtain ⟨above, below⟩ := paper.rotationBounds
  obtain ⟨turns, isStep⟩ := paper.rotationStep
  rw [withUrlParams, rotation]
  split_ifs with written two two
  · rw [Text.toInt_number (by omega) (by omega), getD_some, min_eq_left below,
      max_eq_right above, isStep, Int.mul_tdiv_cancel_left _ (by decide), mul_comm]
  · exact absurd written.2 two
  · have zero : paper.rotation = 0 := by
      by_contra other
      exact written ⟨other, two⟩
    rw [zero]
    rfl
  · rfl

theorem look_shareQuery_iff (parser : UrlParser) (linked : paper.slug ≠ []) :
    (paper.withUrlParams (parser.value paper.shareQuery)).look = paper.look ↔
      paper.intensity ≠ 0 ∧ (paper.rotation = 0 ∨ 2 ≤ paper.backgroundColors.length) := by
  obtain ⟨colors, intensity, rotation, mode, gradient, color, slug⟩ := paper.valueOf_shareParams
  simp only [← paper.value_shareQuery parser linked]
    at colors intensity rotation mode gradient color slug
  simp only [look, gradientRotation, WallPaperLook.mk.injEq, paper.withUrlParams_blurred mode,
    paper.withUrlParams_colors colors gradient color slug, paper.withUrlParams_intensity intensity,
    paper.withUrlParams_rotation rotation, rotation_kept_iff, true_and, kDefaultIntensity]
  refine and_congr_left fun _ => ?_
  split_ifs with written
  · exact iff_of_true rfl written
  · rw [not_not] at written
    omega

/-- Without a slug there is no link, and nothing is kept but what is the default. -/
theorem look_noQuery_iff (parser : UrlParser) (unlinked : paper.slug = []) :
    (paper.withUrlParams (parser.value paper.shareQuery)).look = paper.look ↔
      paper.blurred = false ∧ paper.backgroundColors = [] ∧ paper.intensity = 50 ∧
        paper.rotation = 0 := by
  have value : ∀ name, parser.value paper.shareQuery name = [] := by
    intro name
    rw [shareQuery, if_pos unlinked]
    exact parser.value_join [] nodup_nil (fun _ member => by cases member) name
  have result : (paper.withUrlParams (parser.value paper.shareQuery)).look =
      ⟨false, [], 50, 0⟩ := by
    simp only [look, gradientRotation, withUrlParams, value, unlinked]
    rfl
  rw [result, look, gradientRotation, WallPaperLook.mk.injEq]
  constructor
  · rintro ⟨blurred, colors, intensity, rotation⟩
    rw [← colors, if_pos (by decide)] at rotation
    exact ⟨blurred.symm, colors.symm, intensity.symm, rotation.symm⟩
  · rintro ⟨blurred, colors, intensity, rotation⟩
    rw [blurred, colors, intensity, rotation]
    exact ⟨rfl, rfl, rfl, rfl⟩

/-- The look of a pattern that is shared is kept: the colors are read as they were written,
and so is all that the link and the settings tell. -/
structure KeepsLook (parser : UrlParser) : Prop where
  colors : paper.backgroundColors ≠ [] →
    QColor.colorsFromString (QColor.stringFromColors paper.backgroundColors) =
      paper.backgroundColors
  link : (paper.withUrlParams (parser.value paper.shareQuery)).look = paper.look
  settings : ∀ userId document,
    (paper.received userId document).map WallPaper.look = some paper.look

/-- The intensity is neither written to the link where it is zero nor to the settings, and
the rotation is only with two colors. -/
theorem keepsLook_iff (parser : UrlParser) :
    paper.KeepsLook parser ↔
      paper.intensity = 50 ∧ (paper.rotation = 0 ∨ 2 ≤ paper.backgroundColors.length) ∧
        (paper.slug = [] → paper.blurred = false ∧ paper.backgroundColors = []) := by
  constructor
  · rintro ⟨-, link, settings⟩
    obtain ⟨intensity, rotation⟩ := (paper.look_received_iff 0 0).mp (settings 0 0)
    refine ⟨intensity, rotation, fun unlinked => ?_⟩
    obtain ⟨blurred, colors, -⟩ := (paper.look_noQuery_iff parser unlinked).mp link
    exact ⟨blurred, colors⟩
  · rintro ⟨intensity, rotation, unlinked⟩
    refine ⟨fun some => ?_, ?_, fun userId document => ?_⟩
    · exact QColor.colorsFromString_stringFromColors some paper.fewColors paper.fullColors
    · by_cases none : paper.slug = []
      · obtain ⟨blurred, colors⟩ := unlinked none
        refine (paper.look_noQuery_iff parser none).mpr ⟨blurred, colors, intensity, ?_⟩
        exact rotation.resolve_right (by simp [colors])
      · refine (paper.look_shareQuery_iff parser none).mpr ⟨?_, rotation⟩
        rw [intensity]
        decide
    · exact (paper.look_received_iff userId document).mpr ⟨intensity, rotation⟩

/-- A black pattern with no intensity. -/
def faded : PatternPaper where
  id := 1
  flags := { isPattern := true }
  slug := ['a']
  backgroundColors := [⟨0, 0, 0, 255⟩]
  intensity := 0
  isPattern := rfl
  notColors := rfl
  fewColors := by decide
  fullColors := by decide
  intensityBounds := by decide
  rotationBounds := by decide
  rotationStep := by decide

/-- Neither the link nor the settings of a pattern tell that its intensity is zero. -/
theorem not_keepsLook_faded :
    ¬∀ (paper : PatternPaper) (parser : UrlParser), paper.KeepsLook parser := by
  intro keeps
  have intensity := ((faded.look_received_iff 0 0).mp ((keeps faded default).settings 0 0)).1
  revert intensity
  decide

end PatternPaper

end TelegramDesktop
