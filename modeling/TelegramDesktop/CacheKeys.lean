import Mathlib.Tactic.Ring
import TelegramDesktop.ImageLocation

/-!
# Cache keys of documents, urls and points

The keys of `data/data_types.cpp`. Hashes and rounded coordinates may be any.
-/

namespace TelegramDesktop.CacheKeys

open Storage.Cache (Key)

def kDocumentCacheTag : UInt64 := 0x0000000000000100
def kDocumentCacheMask : UInt64 := 0x00000000000000FF
def kDocumentThumbCacheTag : UInt64 := 0x0000000000000200
def kDocumentThumbCacheMask : UInt64 := 0x00000000000000FF
def kAudioAlbumThumbCacheTag : UInt64 := 0x0000000000000300
def kWebDocumentCacheTag : UInt64 := 0x0000020000000000
def kUrlCacheTag : UInt64 := 0x0000030000000000
def kGeoPointCacheTag : UInt64 := 0x0000040000000000

def DocumentCacheKey (dcId : Int32) (id : UInt64) : Key :=
  ⟨kDocumentCacheTag ||| (dcId.toInt64.toUInt64 &&& kDocumentCacheMask), id⟩

def DocumentThumbCacheKey (dcId : Int32) (id : UInt64) : Key :=
  let part := dcId.toInt64.toUInt64 &&& kDocumentThumbCacheMask
  ⟨kDocumentThumbCacheTag ||| part, id⟩

def part1 (hash : Bytes) : UInt32 := UInt32.ofNat (ofLittleEndian (segment hash 0 4))

def part2 (hash : Bytes) : UInt64 := UInt64.ofNat (ofLittleEndian (segment hash 4 12))

def part3 (hash : Bytes) : UInt16 := UInt16.ofNat (ofLittleEndian (segment hash 12 14))

/-- `openssl::Sha256`, the conversion of text, and the distance from -360 degrees in
millionths, rounded -/
structure Functions where
  sha256 : Bytes → Bytes
  toUtf8 : QString → QByteArray
  round : UInt64 → UInt32

variable (functions : Functions)

/-- The hash of a url, as of its bytes. -/
def Functions.hash (url : QByteArray) : Bytes := functions.sha256 (url.data.getD [])

def WebDocumentCacheKey (url : QByteArray) : Key :=
  let CacheDcId : UInt64 := 4
  let dcId := CacheDcId &&& 0xFF
  let hash := functions.hash url
  ⟨kWebDocumentCacheTag ||| (dcId <<< 32) ||| (part1 hash).toUInt64, part2 hash⟩

def UrlCacheKey (location : QString) : Key :=
  let hash := functions.hash (functions.toUtf8 location)
  ⟨kUrlCacheTag ||| ((part3 hash).toUInt64 <<< 32) ||| (part1 hash).toUInt64, part2 hash⟩

def zoomscale (location : GeoPointLocation) : UInt32 :=
  ((location.zoom.toUInt32 &&& 0x0F) <<< 8) ||| (location.scale.toUInt32 &&& 0x0F)

def widthheight (location : GeoPointLocation) : UInt32 :=
  ((location.width.toUInt32 &&& 0xFFFF) <<< 16) ||| (location.height.toUInt32 &&& 0xFFFF)

def coordinates (location : GeoPointLocation) : UInt64 :=
  ((functions.round location.lat).toUInt64 <<< 32) ||| (functions.round location.lon).toUInt64

def GeoPointCacheKey (location : GeoPointLocation) : Key :=
  ⟨kGeoPointCacheTag ||| ((zoomscale location).toUInt64 <<< 32) |||
    (widthheight location).toUInt64, coordinates functions location⟩

def AudioAlbumThumbCacheKey (documentId : UInt64) : Key := ⟨kAudioAlbumThumbCacheTag, documentId⟩

/-- What a key is made for. -/
inductive Cached
  | document (dcId : Int32) (id : UInt64)
  | documentThumb (dcId : Int32) (id : UInt64)
  | webDocument (url : QByteArray)
  | url (location : QString)
  | geoPoint (location : GeoPointLocation)
  | audioAlbumThumb (documentId : UInt64)

namespace Cached

/-- The case of a location, by the way its key is made. -/
def kind : Cached → Nat
  | document .. => 0
  | documentThumb .. => 1
  | webDocument _ => 2
  | url _ => 3
  | geoPoint _ => 4
  | audioAlbumThumb _ => 5

def key : Cached → Key
  | document dcId id => DocumentCacheKey dcId id
  | documentThumb dcId id => DocumentThumbCacheKey dcId id
  | webDocument address => WebDocumentCacheKey functions address
  | url location => UrlCacheKey functions location
  | geoPoint location => GeoPointCacheKey functions location
  | audioAlbumThumb documentId => AudioAlbumThumbCacheKey documentId

end Cached

/-- The parameters of a map fit in the bits that a key has for them. -/
structure InRange (location : GeoPointLocation) : Prop where
  width : location.width.toUInt32.toNat < 2 ^ 16
  height : location.height.toUInt32.toNat < 2 ^ 16
  zoom : location.zoom.toUInt32.toNat < 2 ^ 4
  scale : location.scale.toUInt32.toNat < 2 ^ 4

/-- Two maps that are not drawn alike. -/
def Differ (location other : GeoPointLocation) : Prop :=
  location.width ≠ other.width ∨ location.height ≠ other.height ∨
    location.zoom ≠ other.zoom ∨ location.scale ≠ other.scale ∨
    functions.round location.lat ≠ functions.round other.lat ∨
    functions.round location.lon ≠ functions.round other.lon

/-- Two values of different kinds have different keys, and so have two different points. -/
structure Apart (left right : Cached) : Prop where
  kinds : left.kind ≠ right.kind → left.key functions ≠ right.key functions
  points : ∀ location other, left = .geoPoint location → right = .geoPoint other →
    InRange location → InRange other → Differ functions location other →
      left.key functions ≠ right.key functions

/-- The hash of an url reads as the fields of a point, and the tags are filled up to one
another: the lower bits of the zoom by the tag of urls, a bit of the hash by the tag of
points. -/
structure Meets (location : QString) (point : GeoPointLocation) : Prop where
  first : part1 (functions.hash (functions.toUtf8 location)) = widthheight point
  second : part2 (functions.hash (functions.toUtf8 location)) = coordinates functions point
  scale : (part3 (functions.hash (functions.toUtf8 location))).toNat % 256 =
    point.scale.toUInt32.toNat % 16
  low : point.zoom.toUInt32.toNat % 4 = 3
  high : (part3 (functions.hash (functions.toUtf8 location))).toNat / 1024 =
    point.zoom.toUInt32.toNat % 16 / 8 * 2 + 1

/-- The zooms differ in the one bit that the tag has too, and nothing else does. -/
structure Joined (location other : GeoPointLocation) : Prop where
  range : InRange location ∧ InRange other
  size : location.width = other.width ∧ location.height = other.height
  scale : location.scale = other.scale
  rounded : functions.round location.lat = functions.round other.lat ∧
    functions.round location.lon = functions.round other.lon
  zoom : location.zoom ≠ other.zoom
  high : location.zoom.toUInt32.toNat / 8 = other.zoom.toUInt32.toNat / 8
  low : location.zoom.toUInt32.toNat % 4 = other.zoom.toUInt32.toNat % 4

/-- The two locations get one key by the way keys are made of them. -/
def Overlap : Cached → Cached → Prop
  | .url location, .geoPoint point => Meets functions location point
  | .geoPoint point, .url location => Meets functions location point
  | .geoPoint location, .geoPoint other => Joined functions location other
  | _, _ => False

theorem toNat_shifted (upper : UInt32) : (upper.toUInt64 <<< 32).toNat = upper.toNat <<< 32 := by
  have small := upper.toNat_lt
  rw [UInt64.toNat_shiftLeft, UInt32.toNat_toUInt64, Nat.shiftLeft_eq, Nat.shiftLeft_eq]
  exact Nat.mod_eq_of_lt (by change _ * 2 ^ 32 < 2 ^ 64; omega)

theorem toNat_word (upper lower : UInt32) :
    ((upper.toUInt64 <<< 32) ||| lower.toUInt64).toNat = upper.toNat * 2 ^ 32 + lower.toNat := by
  rw [UInt64.toNat_or, toNat_shifted, UInt32.toNat_toUInt64,
    ← Nat.shiftLeft_add_eq_or_of_lt lower.toNat_lt, Nat.shiftLeft_eq]

theorem toNat_tagged (tag upper lower : UInt32) :
    ((tag.toUInt64 <<< 32) ||| (upper.toUInt64 <<< 32) ||| lower.toUInt64).toNat =
      (tag.toNat ||| upper.toNat) * 2 ^ 32 + lower.toNat := by
  have joined : (tag.toUInt64 <<< 32) ||| (upper.toUInt64 <<< 32) =
      (tag ||| upper).toUInt64 <<< 32 := by
    apply UInt64.toNat_inj.mp
    rw [UInt64.toNat_or, toNat_shifted, toNat_shifted, toNat_shifted, UInt32.toNat_or,
      Nat.shiftLeft_or_distrib]
  rw [joined, toNat_word, UInt32.toNat_or]

theorem or_tagUrl (value : Nat) :
    0x300 ||| value = (value / 1024 * 4 + 3) * 256 + value % 256 := by
  have upper : (0x300 ||| value) / 2 ^ 8 = 3 ||| value / 2 ^ 8 := Nat.or_div_two_pow
  have lower : (0x300 ||| value) % 2 ^ 8 = 0 ||| value % 2 ^ 8 := Nat.or_mod_two_pow
  have above : (3 ||| value / 2 ^ 8) / 2 ^ 2 = 0 ||| value / 2 ^ 8 / 2 ^ 2 := Nat.or_div_two_pow
  have filled : (3 ||| value / 2 ^ 8) % 2 ^ 2 = 3 := by
    have bits : ∀ rest < 4, 3 ||| rest = 3 := by decide
    rw [Nat.or_mod_two_pow]
    exact bits _ (Nat.mod_lt _ (by norm_num))
  rw [Nat.zero_or] at lower above
  omega

theorem or_tagPoint {zoom scale : Nat} (zoomSmall : zoom < 16) (scaleSmall : scale < 16) :
    0x400 ||| (zoom * 256 + scale) = (zoom / 8 * 8 + 4 + zoom % 4) * 256 + scale := by
  have upper : (0x400 ||| (zoom * 256 + scale)) / 2 ^ 8 = 4 ||| (zoom * 256 + scale) / 2 ^ 8 :=
    Nat.or_div_two_pow
  have lower : (0x400 ||| (zoom * 256 + scale)) % 2 ^ 8 = 0 ||| (zoom * 256 + scale) % 2 ^ 8 :=
    Nat.or_mod_two_pow
  have bits : ∀ rest < 16, 4 ||| rest = rest / 8 * 8 + 4 + rest % 4 := by decide
  have outer : (zoom * 256 + scale) / 2 ^ 8 = zoom := by omega
  rw [Nat.zero_or] at lower
  rw [outer, bits zoom zoomSmall] at upper
  omega

theorem toNat_fields {shift upper lower : UInt32} (narrow : shift.toNat < 32)
    (fits : upper.toNat * 2 ^ shift.toNat < 2 ^ 32) (below : lower.toNat < 2 ^ shift.toNat) :
    ((upper <<< shift) ||| lower).toNat = upper.toNat * 2 ^ shift.toNat + lower.toNat := by
  rw [UInt32.toNat_or, UInt32.toNat_shiftLeft, Nat.mod_eq_of_lt narrow, Nat.shiftLeft_eq,
    Nat.mod_eq_of_lt fits, ← Nat.shiftLeft_eq, ← Nat.shiftLeft_add_eq_or_of_lt below,
    Nat.shiftLeft_eq]

theorem toNat_zoomscale (location : GeoPointLocation) : (zoomscale location).toNat =
    location.zoom.toUInt32.toNat % 16 * 2 ^ 8 + location.scale.toUInt32.toNat % 16 := by
  have masked (field : UInt32) : (field &&& 0x0F).toNat = field.toNat % 16 :=
    (UInt32.toNat_and field 0x0F).trans (Nat.and_two_pow_sub_one_eq_mod field.toNat 4)
  have shift : (8 : UInt32).toNat = 8 := rfl
  rw [zoomscale, toNat_fields (by rw [shift]; decide) (by rw [masked, shift]; omega)
    (by rw [masked, shift]; omega), masked, masked, shift]

theorem toNat_widthheight (location : GeoPointLocation) : (widthheight location).toNat =
    location.width.toUInt32.toNat % 2 ^ 16 * 2 ^ 16 + location.height.toUInt32.toNat % 2 ^ 16 := by
  have masked (field : UInt32) : (field &&& 0xFFFF).toNat = field.toNat % 2 ^ 16 :=
    (UInt32.toNat_and field 0xFFFF).trans (Nat.and_two_pow_sub_one_eq_mod field.toNat 16)
  have shift : (16 : UInt32).toNat = 16 := rfl
  rw [widthheight, toNat_fields (by rw [shift]; decide) (by rw [masked, shift]; omega)
    (by rw [masked, shift]; omega), masked, masked, shift]

theorem toNat_byteTagged (tag : Nat) (small : tag <<< 8 < 2 ^ 64) (dcId : Int32) :
    (UInt64.ofNat (tag <<< 8) ||| (dcId.toInt64.toUInt64 &&& 0xFF)).toNat =
      tag * 2 ^ 8 + dcId.toInt64.toUInt64.toNat % 2 ^ 8 := by
  have masked : (dcId.toInt64.toUInt64 &&& 0xFF).toNat = dcId.toInt64.toUInt64.toNat % 2 ^ 8 :=
    (UInt64.toNat_and _ 0xFF).trans (Nat.and_two_pow_sub_one_eq_mod _ 8)
  have within := Nat.mod_lt dcId.toInt64.toUInt64.toNat (show 0 < 2 ^ 8 by norm_num)
  rw [UInt64.toNat_or, masked, UInt64.toNat_ofNat_of_lt' small,
    ← Nat.shiftLeft_add_eq_or_of_lt within, Nat.shiftLeft_eq]

theorem toNat_high_document (dcId : Int32) (id : UInt64) :
    (DocumentCacheKey dcId id).high.toNat = 1 * 2 ^ 8 + dcId.toInt64.toUInt64.toNat % 2 ^ 8 :=
  toNat_byteTagged 1 (by decide) dcId

theorem toNat_high_thumb (dcId : Int32) (id : UInt64) :
    (DocumentThumbCacheKey dcId id).high.toNat = 2 * 2 ^ 8 + dcId.toInt64.toUInt64.toNat % 2 ^ 8 :=
  toNat_byteTagged 2 (by decide) dcId

variable {functions}

theorem toNat_high_web (url : QByteArray) : (WebDocumentCacheKey functions url).high.toNat =
    0x204 * 2 ^ 32 + (part1 (functions.hash url)).toNat :=
  toNat_tagged 0x200 4 (part1 (functions.hash url))

theorem toNat_high_url (location : QString) : (UrlCacheKey functions location).high.toNat =
    (((part3 (functions.hash (functions.toUtf8 location))).toNat / 1024 * 4 + 3) * 256 +
      (part3 (functions.hash (functions.toUtf8 location))).toNat % 256) * 2 ^ 32 +
      (part1 (functions.hash (functions.toUtf8 location))).toNat := by
  rw [← or_tagUrl]
  exact toNat_tagged 0x300 (part3 (functions.hash (functions.toUtf8 location))).toUInt32 _

theorem toNat_high_point (location : GeoPointLocation) :
    (GeoPointCacheKey functions location).high.toNat =
      ((location.zoom.toUInt32.toNat % 16 / 8 * 8 + 4 + location.zoom.toUInt32.toNat % 4) * 256 +
        location.scale.toUInt32.toNat % 16) * 2 ^ 32 + (widthheight location).toNat := by
  have narrowed : location.zoom.toUInt32.toNat % 16 % 4 = location.zoom.toUInt32.toNat % 4 :=
    Nat.mod_mod_of_dvd _ (by decide)
  have fields : (zoomscale location).toNat =
      location.zoom.toUInt32.toNat % 16 * 256 + location.scale.toUInt32.toNat % 16 :=
    toNat_zoomscale location
  rw [← narrowed, ← or_tagPoint (Nat.mod_lt _ (by decide)) (Nat.mod_lt _ (by decide)), ← fields]
  exact toNat_tagged 0x400 (zoomscale location) (widthheight location)

/-- What the tags leave in the upper word of a key of a kind. -/
inductive Tagged : Nat → Nat → Prop
  | document {high : Nat} (tag : high / 256 = 1) : Tagged 0 high
  | documentThumb {high : Nat} (tag : high / 256 = 2) : Tagged 1 high
  | webDocument {high : Nat} (tag : high / 2 ^ 32 = 0x204) : Tagged 2 high
  | url {high : Nat} (tag : high / 2 ^ 40 % 4 = 3) : Tagged 3 high
  | geoPoint {high : Nat} (tag : high / 2 ^ 42 % 2 = 1) : Tagged 4 high
  | audioAlbumThumb {high : Nat} (tag : high / 256 = 3) : Tagged 5 high

theorem Cached.tagged (value : Cached) :
    Tagged value.kind (value.key functions).high.toNat := by
  cases value with
  | document dcId id =>
    refine .document ?_
    rw [Cached.key, toNat_high_document]
    omega
  | documentThumb dcId id =>
    refine .documentThumb ?_
    rw [Cached.key, toNat_high_thumb]
    omega
  | webDocument address =>
    have small := (part1 (functions.hash address)).toNat_lt
    refine .webDocument ?_
    rw [Cached.key, toNat_high_web]
    omega
  | url location =>
    have small := (part1 (functions.hash (functions.toUtf8 location))).toNat_lt
    refine .url ?_
    rw [Cached.key, toNat_high_url]
    omega
  | geoPoint location =>
    have small := (widthheight location).toNat_lt
    refine .geoPoint ?_
    rw [Cached.key, toNat_high_point]
    omega
  | audioAlbumThumb documentId =>
    exact .audioAlbumThumb (show (0x300 : UInt64).toNat / 256 = 3 by decide)

theorem Tagged.eq_or {kind other high : Nat} (left : Tagged kind high) (right : Tagged other high) :
    kind = other ∨ kind = 3 ∧ other = 4 ∨ kind = 4 ∧ other = 3 := by
  cases left <;> cases right <;> omega

theorem key_url_eq_iff (location : QString) (point : GeoPointLocation) :
    UrlCacheKey functions location = GeoPointCacheKey functions point ↔
      Meets functions location point := by
  have partSmall := (part1 (functions.hash (functions.toUtf8 location))).toNat_lt
  have sizeSmall := (widthheight point).toNat_lt
  have urls := @toNat_high_url functions location
  have points := @toNat_high_point functions point
  constructor
  · intro same
    have highs := congrArg (fun key => key.high.toNat) same
    exact ⟨UInt32.toNat_inj.mp (by omega), congrArg Key.low same, by omega, by omega, by omega⟩
  · intro meets
    have first := congrArg UInt32.toNat meets.first
    have scale := meets.scale
    have low := meets.low
    have high := meets.high
    have highs : (UrlCacheKey functions location).high = (GeoPointCacheKey functions point).high :=
      UInt64.toNat_inj.mp (by rw [urls, points]; omega)
    exact (Key.mk.injEq ..).mpr ⟨highs, meets.second⟩

variable {location other : GeoPointLocation}

theorem coordinates_inj :
    coordinates functions location = coordinates functions other ↔
      functions.round location.lat = functions.round other.lat ∧
        functions.round location.lon = functions.round other.lon := by
  have lonSmall := (functions.round location.lon).toNat_lt
  have otherSmall := (functions.round other.lon).toNat_lt
  constructor
  · intro same
    have words := congrArg UInt64.toNat same
    rw [coordinates, coordinates, toNat_word, toNat_word] at words
    exact ⟨UInt32.toNat_inj.mp (by omega), UInt32.toNat_inj.mp (by omega)⟩
  · rintro ⟨lat, lon⟩
    rw [coordinates, coordinates, lat, lon]

theorem toUInt32_inj {left right : Int32} (same : left.toUInt32.toNat = right.toUInt32.toNat) :
    left = right :=
  Int32.toBitVec_inj.mp (UInt32.toBitVec_inj.mpr (UInt32.toNat_inj.mp same))

theorem joined_of_key_eq (left : InRange location)
    (right : InRange other) (differ : Differ functions location other)
    (same : GeoPointCacheKey functions location = GeoPointCacheKey functions other) :
    Joined functions location other := by
  obtain ⟨width, height, zoom, scale⟩ := left
  obtain ⟨otherWidth, otherHeight, otherZoom, otherScale⟩ := right
  have rounded := coordinates_inj.mp (congrArg Key.low same)
  have sizes := toNat_widthheight location
  have otherSizes := toNat_widthheight other
  have highs := congrArg (fun key => key.high.toNat) same
  simp only [toNat_high_point, sizes, otherSizes] at highs
  have sameScale : location.scale = other.scale := toUInt32_inj (by omega)
  have sameWidth : location.width = other.width := toUInt32_inj (by omega)
  have sameHeight : location.height = other.height := toUInt32_inj (by omega)
  refine ⟨⟨⟨width, height, zoom, scale⟩, ⟨otherWidth, otherHeight, otherZoom, otherScale⟩⟩,
    ⟨sameWidth, sameHeight⟩, sameScale, rounded, ?_, by omega, by omega⟩
  intro sameZoom
  simp only [Differ, sameWidth, sameHeight, sameZoom, sameScale, rounded] at differ
  tauto

theorem key_eq_of_joined (joined : Joined functions location other) :
    GeoPointCacheKey functions location = GeoPointCacheKey functions other := by
  have high := joined.high
  have low := joined.low
  have highs : (GeoPointCacheKey functions location).high =
      (GeoPointCacheKey functions other).high := by
    apply UInt64.toNat_inj.mp
    rw [toNat_high_point, toNat_high_point, widthheight, widthheight, joined.size.1,
      joined.size.2, joined.scale]
    omega
  exact (Key.mk.injEq ..).mpr ⟨highs, coordinates_inj.mpr joined.rounded⟩

theorem Cached.overlap_of_key_eq {left right : Cached} (kinds : left.kind ≠ right.kind)
    (same : left.key functions = right.key functions) : Overlap functions left right := by
  have tagged := @Cached.tagged functions left
  rw [same] at tagged
  rcases tagged.eq_or right.tagged with equal | urlPoint | pointUrl
  · exact absurd equal kinds
  · cases left <;> cases right <;> simp only [Cached.kind] at urlPoint <;>
      first | exact (key_url_eq_iff _ _).mp same | omega
  · cases left <;> cases right <;> simp only [Cached.kind] at pointUrl <;>
      first | exact (key_url_eq_iff _ _).mp same.symm | omega

/-- Keys are apart for all but two overlaps: of an url whose hash reads as a point, and of two
points whose zooms the tag makes one. -/
theorem apart_iff_not_overlap (functions : Functions) (left right : Cached) :
    Apart functions left right ↔ ¬ Overlap functions left right := by
  constructor
  · intro apart overlap
    cases left <;> cases right <;> simp only [Overlap] at overlap
    · exact apart.kinds (by simp only [Cached.kind]; decide) ((key_url_eq_iff _ _).mpr overlap)
    · exact apart.kinds (by simp only [Cached.kind]; decide) ((key_url_eq_iff _ _).mpr overlap).symm
    · exact apart.points _ _ rfl rfl overlap.range.1 overlap.range.2
        (.inr (.inr (.inl overlap.zoom))) (key_eq_of_joined overlap)
  · intro separate
    refine ⟨fun kinds same => separate (Cached.overlap_of_key_eq kinds same), ?_⟩
    rintro location other rfl rfl first second differ same
    exact separate (joined_of_key_eq first second differ same)

/-- A whole world and a town around the same place have one key. -/
theorem not_apart_zooms : ¬ ∀ functions left right, Apart functions left right := by
  intro apart
  let functions : Functions := ⟨id, fun _ => ⟨none, by decide⟩, fun _ => 0⟩
  have points := (apart functions (.geoPoint { zoom := 0 }) (.geoPoint { zoom := 4 })).points
    _ _ rfl rfl (by constructor <;> decide) (by constructor <;> decide)
    (.inr (.inr (.inl (by decide))))
  exact points rfl

end TelegramDesktop.CacheKeys
