import Mathlib.Algebra.Order.Ring.Int
import Mathlib.Data.List.Basic

/-!
# Wallpapers

A wallpaper is shared by a link with parameters, and its settings are sent to the server,
as in `data/data_wall_paper.cpp`.  Texts are lists of characters.
-/

namespace TelegramDesktop

abbrev Text := List Char

namespace Text

/-- `QString::number` -/
def number : Int → Text
  | .ofNat value => Nat.toDigits 10 value
  | .negSucc value => '-' :: Nat.toDigits 10 (value + 1)

def trimmed (text : Text) : Text :=
  ((text.dropWhile Char.isWhitespace).reverse.dropWhile Char.isWhitespace).reverse

def digits (text : Text) : Option Nat :=
  if text ≠ [] ∧ text.all Char.isDigit = true then some (Nat.ofDigitChars 10 text 0) else none

def signed : Text → Option Int
  | '-' :: rest => (digits rest).map fun value => -(value : Int)
  | '+' :: rest => (digits rest).map fun value => (value : Int)
  | text => (digits text).map fun value => (value : Int)

/-- `QString::toInt(&ok)`, with nothing where it is not ok. -/
def toInt (text : Text) : Option Int :=
  (signed text.trimmed).filter fun value => -2 ^ 31 ≤ value && value < 2 ^ 31

/-- `QStringList::join` -/
def join (separator : Char) (texts : List Text) : Text := [separator].intercalate texts

end Text

/-- The components of a color.  An opaque one has full alpha. -/
structure QColor where
  red : UInt8
  green : UInt8
  blue : UInt8
  alpha : UInt8 := 255
  deriving DecidableEq

namespace QColor

def isHex (ch : Char) : Bool :=
  !((ch < 'a' || 'f' < ch) && (ch < 'A' || 'F' < ch) && (ch < '0' || '9' < ch))

def decimal (hex : Char) : Nat :=
  if '0' ≤ hex ∧ hex ≤ '9' then hex.toNat - '0'.toNat
  else if 'a' ≤ hex ∧ hex ≤ 'f' then hex.toNat - 'a'.toNat + 0x0a
  else hex.toNat - 'A'.toNat + 0x0a

/-- Two hex digits of a colour. -/
def componentFromString (text : Text) (index : Nat) : UInt8 :=
  UInt8.ofNat (decimal (text.getD (index * 2) '0') * 0x10 +
    decimal (text.getD (index * 2 + 1) '0'))

def fromString (string : Text) : Option QColor :=
  if string.length ≠ 6 then none
  else if string.any fun ch => !isHex ch then none
  else some ⟨componentFromString string 0, componentFromString string 1,
    componentFromString string 2, 255⟩

/-- The color at a place, with the right separator before the next one. -/
def colorAt (string : Text) (count place : Nat) : Option QColor :=
  if place + 1 < count ∧ string.getD (place * 7 + 6) ' ' ≠ '~' ∧
      (2 < count ∨ string.getD (place * 7 + 6) ' ' ≠ '-') then none
  else fromString ((string.drop (place * 7)).take 6)

def kMaxColors : Nat := 4

/-- At most four colours, each of six hex digits. -/
def colorsFromString (string : Text) : List QColor :=
  if string.length / 6 = 0 ∨ kMaxColors < string.length / 6 ∨
      string.length ≠ string.length / 6 * 7 - 1 then []
  else ((List.range (string.length / 6)).mapM (colorAt string (string.length / 6))).getD []

def hex (value : Nat) : Char :=
  if 9 < min value 15 then Char.ofNat ('a'.toNat + (min value 15 - 10))
  else Char.ofNat ('0'.toNat + min value 15)

def componentToString (value : UInt8) : Text := [hex (value.toNat / 16), hex (value.toNat % 16)]

def toString (color : QColor) : Text :=
  componentToString color.red ++ componentToString color.green ++ componentToString color.blue

/-- The colours as a link has them. -/
def stringFromColors (colors : List QColor) : Text :=
  Text.join (if 2 < colors.length then '~' else '-') (colors.map toString)

def serialize (color : QColor) : Nat :=
  color.red.toNat <<< 16 ||| color.green.toNat <<< 8 ||| color.blue.toNat

def fromSerialized (serialized : Nat) : QColor :=
  ⟨UInt8.ofNat (serialized >>> 16 &&& 0xFF), UInt8.ofNat (serialized >>> 8 &&& 0xFF),
    UInt8.ofNat (serialized &&& 0xFF), 255⟩

end QColor

/-- The flags of `wallPaperSettings`. -/
inductive SettingsFlag
  | f_background_color
  | f_blur
  | f_motion
  | f_intensity
  | f_second_background_color
  | f_rotation
  | f_third_background_color
  | f_fourth_background_color
  deriving DecidableEq

/-- The bit of a flag.  The second color and the rotation share one. -/
def SettingsFlag.bit : SettingsFlag → Nat
  | f_background_color => 0
  | f_blur => 1
  | f_motion => 2
  | f_intensity => 3
  | f_second_background_color | f_rotation => 4
  | f_third_background_color => 5
  | f_fourth_background_color => 6

def SettingsFlag.isSet (flags : List SettingsFlag) (flag : SettingsFlag) : Bool :=
  flags.any fun other => other.bit = flag.bit

/-- `MTPDwallPaperSettings`, with the fields that are transmitted. -/
structure WallPaperSettings where
  blur : Bool
  backgroundColor : Option Nat
  secondBackgroundColor : Option Nat
  thirdBackgroundColor : Option Nat
  fourthBackgroundColor : Option Nat
  intensity : Option Int
  rotation : Option Int
  deriving DecidableEq

/-- `MTP_wallPaperSettings`: the fields whose flags are set are transmitted. -/
def WallPaperSettings.make (flags : List SettingsFlag) (color second third fourth : Nat)
    (intensity rotation : Int) : WallPaperSettings :=
  { blur := SettingsFlag.isSet flags .f_blur
    backgroundColor :=
      if SettingsFlag.isSet flags .f_background_color then some color else none
    secondBackgroundColor :=
      if SettingsFlag.isSet flags .f_second_background_color then some second else none
    thirdBackgroundColor :=
      if SettingsFlag.isSet flags .f_third_background_color then some third else none
    fourthBackgroundColor :=
      if SettingsFlag.isSet flags .f_fourth_background_color then some fourth else none
    intensity := if SettingsFlag.isSet flags .f_intensity then some intensity else none
    rotation := if SettingsFlag.isSet flags .f_rotation then some rotation else none }

/-- The colours of the settings, up to the first that is missing. -/
def colorsFromMTP (data : WallPaperSettings) : List QColor :=
  ([data.backgroundColor, data.secondBackgroundColor, data.thirdBackgroundColor,
    data.fourthBackgroundColor].takeWhile Option.isSome).reduceOption.map QColor.fromSerialized

/-- The flags of a wallpaper. -/
structure WallPaperFlags where
  isPattern : Bool := false
  isDefault : Bool := false
  isCreator : Bool := false
  isDark : Bool := false
  deriving DecidableEq

def kDefaultIntensity : Int := 50

/-- A wallpaper: its pattern or picture, its colors and its settings. -/
structure WallPaper where
  id : UInt64
  accessHash : UInt64 := 0
  ownerId : UInt64 := 0
  flags : WallPaperFlags := {}
  slug : Text := []
  backgroundColors : List QColor := []
  rotation : Int := 0
  intensity : Int := kDefaultIntensity
  blurred : Bool := false
  document : Option Nat := none
  deriving DecidableEq

/-- `MTPDwallPaper`.  Of the document it is known whether its properties are those of a
wallpaper. -/
structure WallPaperData where
  id : UInt64
  accessHash : UInt64
  flags : WallPaperFlags
  slug : Text
  document : Nat
  checkWallPaperProperties : Bool
  settings : Option WallPaperSettings

namespace WallPaper

open Text

variable (paper : WallPaper)

def gradientRotation : Int := if paper.backgroundColors.length < 3 then paper.rotation else 0

/-- The parameters of a link. -/
def shareParams : List (Text × Text) :=
  (if paper.flags.isPattern then
    (if paper.backgroundColors ≠ [] then
      [("bg_color".toList, QColor.stringFromColors paper.backgroundColors)] else []) ++
    (if paper.intensity ≠ 0 then [("intensity".toList, number paper.intensity)] else [])
  else []) ++
  (if paper.rotation ≠ 0 ∧ paper.backgroundColors.length = 2 then
    [("rotation".toList, number paper.rotation)] else []) ++
  if paper.blurred then [("mode".toList, join '+' ["blur".toList])] else []

def paramText (param : Text × Text) : Text := param.1 ++ '=' :: param.2

/-- What follows the question mark of the link, and nothing without a link. -/
def shareQuery : Text :=
  if paper.slug = [] then [] else join '&' (paper.shareParams.map paramText)

/-- The domain of the session stands before the rest of a link. -/
def shareUrl (domain : Text) : Text :=
  if paper.slug = [] then []
  else if paper.shareParams = [] then domain ++ "bg/".toList ++ paper.slug
  else domain ++ "bg/".toList ++ paper.slug ++ '?' :: paper.shareQuery

def firstColors : List Text → List QColor
  | [] => []
  | text :: rest =>
    if QColor.colorsFromString text = [] then firstColors rest else QColor.colorsFromString text

/-- The parameters are given by their values, which are empty for those that are missing. -/
def withUrlParams (params : Text → Text) : WallPaper :=
  { paper with
    blurred := ((params "mode".toList).map fun ch => if ch = '+' then ' ' else ch).splitOn ' '
      |>.any (· = "blur".toList)
    backgroundColors := firstColors [paper.slug, params "bg_color".toList,
      params "gradient".toList, params "color".toList, params "slug".toList]
    intensity :=
      match toInt (params "intensity".toList) with
      | some intensity =>
        if -100 ≤ intensity ∧ intensity < 101 then intensity else kDefaultIntensity
      | none => kDefaultIntensity
    rotation := (max 0 (min ((toInt (params "rotation".toList)).getD 0) 315)).tdiv 45 * 45 }

def serializeForIndex (index : Nat) : Nat :=
  (paper.backgroundColors[index]?).elim 0 QColor.serialize

def flagForIndex (index : Nat) : List SettingsFlag :=
  if paper.backgroundColors.length ≤ index then []
  else
    match index with
    | 0 => [.f_background_color]
    | 1 => [.f_second_background_color]
    | 2 => [.f_third_background_color]
    | _ => [.f_fourth_background_color]

/-- The settings that are sent. -/
def mtpSettings : WallPaperSettings :=
  .make
    ((if paper.blurred then [.f_blur] else []) ++ paper.flagForIndex 0 ++ paper.flagForIndex 1 ++
      paper.flagForIndex 2 ++ paper.flagForIndex 3)
    (paper.serializeForIndex 0) (paper.serializeForIndex 1) (paper.serializeForIndex 2)
    (paper.serializeForIndex 3) paper.intensity paper.rotation

/-- The settings of a wallpaper with a document.  Only a pattern has colors. -/
def applySettings (data : WallPaperSettings) : WallPaper :=
  if paper.flags.isPattern then
    { paper with
      blurred := data.blur
      backgroundColors := colorsFromMTP data
      intensity := data.intensity.getD paper.intensity
      rotation := data.rotation.getD paper.rotation }
  else { paper with blurred := data.blur }

/-- `userId` is the one of the session. -/
def create (userId : UInt64) (data : WallPaperData) : Option WallPaper :=
  if data.checkWallPaperProperties then
    let paper : WallPaper :=
      { id := data.id
        accessHash := data.accessHash
        ownerId := userId
        flags := data.flags
        slug := data.slug
        document := some data.document }
    some (data.settings.elim paper paper.applySettings)
  else none

end WallPaper

end TelegramDesktop
