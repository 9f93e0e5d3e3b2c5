import TelegramDesktop.DcOptions

/-!
# Options that survive their serialization

Whatever the operations on the options admitted, every endpoint stands in the list of
its own data center, once for its address, and every key that is kept is valid and
stands under its fingerprint.
-/

namespace TelegramDesktop.DcOptions

open List DataStream FlatMap

/-- What the reader asks of an address before it takes it. -/
structure Endpoint.Acceptable (endpoint : Endpoint) : Prop where
  ip_filled : 0 < endpoint.ip.length
  ip_short : endpoint.ip.length ≤ 45
  secret : validateSecret endpoint.secret = true

/-- The addresses of one data center, each with its own id and none twice. -/
structure Listed (dcId : DcId) (list : List Endpoint) : Prop where
  filled : list ≠ []
  own : ∀ endpoint ∈ list, endpoint.id = dcId
  distinct : list.Pairwise fun first second => sameAddress first second = false
  acceptable : ∀ endpoint ∈ list, endpoint.Acceptable

/-- The addresses of every data center are in order. -/
def AllListed (data : Data) : Prop :=
  ∀ dcId list, data.find? dcId = some list → Listed dcId list

/-- An endpoint joins a list that has none with its address. -/
def addEndpoint (list : List Endpoint) (endpoint : Endpoint) : List Endpoint :=
  if list.any fun other => sameAddress other endpoint then list else list ++ [endpoint]

/-- An address with its data center. -/
def labelledEndpoint (endpoint : Endpoint) : DcId × Endpoint := (endpoint.id, endpoint)

theorem applyOneOption_data (data : Data) (endpoint : Endpoint) :
    (applyOneOption data endpoint).1 =
      data.amend [] addEndpoint (labelledEndpoint endpoint) := by
  unfold applyOneOption amend labelledEndpoint addEndpoint
  cases found : data.find? endpoint.id with
  | none => exact emplace_eq_set found
  | some list =>
    dsimp only [Option.getD_some]
    split
    · exact (set_of_find? found).symm
    · rfl

theorem applyAll_eq (data : Data) (endpoints : List Endpoint) :
    applyAll data endpoints =
      (endpoints.map labelledEndpoint).foldl (amend [] addEndpoint) data := by
  induction endpoints generalizing data with
  | nil => rfl
  | cons endpoint endpoints ih =>
    rw [map_cons, foldl_cons, ← applyOneOption_data, ← ih]
    rfl

theorem listed_addEndpoint {list : List Endpoint} {endpoint : Endpoint}
    (listed : list ≠ [] → Listed endpoint.id list) (acceptable : endpoint.Acceptable) :
    Listed endpoint.id (addEndpoint list endpoint) := by
  unfold addEndpoint
  split
  next known =>
    apply listed
    rintro rfl
    simp at known
  next fresh =>
    rw [any_eq_true, not_exists] at fresh
    have pairs : list.Pairwise fun first second => sameAddress first second = false := by
      cases list with
      | nil => exact .nil
      | cons head list => exact (listed (cons_ne_nil _ _)).distinct
    refine ⟨by simp, ?_, ?_, ?_⟩
    · intro other member
      rcases mem_append.mp member with old | isNew
      · exact (listed (ne_nil_of_mem old)).own other old
      · rw [mem_singleton.mp isNew]
    · rw [pairwise_append]
      refine ⟨pairs, pairwise_singleton _ _, ?_⟩
      intro other member added addedMem
      rw [mem_singleton.mp addedMem, ← Bool.not_eq_true]
      exact fun same => fresh other ⟨member, same⟩
    · intro other member
      rcases mem_append.mp member with old | isNew
      · exact (listed (ne_nil_of_mem old)).acceptable other old
      · rw [mem_singleton.mp isNew]
        exact acceptable

theorem allListed_empty : AllListed ∅ := by
  intro dcId list found
  cases found

section

variable {data : Data} (listed : AllListed data)
include listed

theorem AllListed.applyOneOption {endpoint : Endpoint} (acceptable : endpoint.Acceptable) :
    AllListed (applyOneOption data endpoint).1 := by
  rw [applyOneOption_data]
  apply forall_amend listed
  apply listed_addEndpoint _ acceptable
  intro filled
  cases found : data.find? endpoint.id with
  | none =>
    rw [labelledEndpoint, found] at filled
    exact (filled rfl).elim
  | some list =>
    have value : (data.find? (labelledEndpoint endpoint).1).getD [] = list := by
      rw [labelledEndpoint, found]
      rfl
    rw [value]
    exact listed endpoint.id list found

theorem AllListed.applyAll {endpoints : List Endpoint}
    (acceptable : ∀ endpoint ∈ endpoints, endpoint.Acceptable) :
    AllListed (applyAll data endpoints) := by
  induction endpoints generalizing data with
  | nil => exact listed
  | cons endpoint endpoints ih =>
    exact ih (listed.applyOneOption (acceptable endpoint (by simp)))
      fun other member => acceptable other (by simp [member])

theorem AllListed.filter (keep : DcId → Bool) :
    AllListed (data.filter fun item => keep item.1) := by
  intro dcId list found
  rw [FlatMap.find?_filter] at found
  split at found
  · exact listed dcId list found
  · cases found

theorem AllListed.of_mem {item : DcId × List Endpoint} (member : item ∈ data.entries) :
    Listed item.1 item.2 :=
  listed item.1 item.2 (find?_of_mem member)

end

theorem foldl_addEndpoint {list added : List Endpoint}
    (distinct : (list ++ added).Pairwise fun first second => sameAddress first second = false) :
    added.foldl addEndpoint list = list ++ added := by
  induction added generalizing list with
  | nil => exact (append_nil _).symm
  | cons endpoint added ih =>
    have fresh : ¬(list.any fun other => sameAddress other endpoint) = true := by
      rw [any_eq_true]
      rintro ⟨other, member, same⟩
      have apart := (pairwise_append.mp distinct).2.2 other member endpoint (by simp)
      rw [apart] at same
      cases same
    rw [foldl_cons, addEndpoint, if_neg fresh, ih (by simpa using distinct)]
    simp

theorem applyAll_entries {data : Data} (listed : AllListed data) :
    applyAll ∅ (data.entries.flatMap Prod.snd) = data := by
  have labels : (data.entries.flatMap Prod.snd).map labelledEndpoint =
      data.entries.flatMap labelled := by
    rw [map_flatMap]
    apply flatMap_congr
    intro item member
    apply map_congr_left
    intro endpoint endpointMem
    rw [labelledEndpoint, (listed.of_mem member).own endpoint endpointMem]
  rw [applyAll_eq, labels]
  apply ext_find?
  intro dcId
  rw [find?_foldl_amend_entries fun item member => (listed.of_mem member).filled]
  cases found : data.find? dcId with
  | none => rfl
  | some list =>
    rw [Option.map_some, @foldl_addEndpoint [] list (listed dcId list found).distinct]
    rfl

section Keys

variable {Key : Type*} {rsa : RSAPublicKey Key} {keys : CdnPublicKeys Key}

/-- The keys of one data center: valid ones, under their fingerprints. -/
structure Trusted (rsa : RSAPublicKey Key) (keys : FlatMap UInt64 Key) : Prop where
  filled : keys.entries ≠ []
  valid : ∀ entry ∈ keys.entries, rsa.valid entry.2 = true
  fingerprint : ∀ entry ∈ keys.entries, rsa.fingerprint entry.2 = entry.1

/-- The keys of every data center are in order. -/
def AllTrusted (rsa : RSAPublicKey Key) (keys : CdnPublicKeys Key) : Prop :=
  ∀ dcId group, keys.find? dcId = some group → Trusted rsa group

def addKey (group : FlatMap UInt64 Key) (entry : UInt64 × Key) : FlatMap UInt64 Key :=
  group.emplace entry.1 entry.2

theorem allTrusted_empty : AllTrusted rsa (∅ : CdnPublicKeys Key) := by
  intro dcId group found
  cases found

section

variable (trusted : AllTrusted rsa keys)
include trusted

theorem AllTrusted.of_mem {item : DcId × FlatMap UInt64 Key} (member : item ∈ keys.entries) :
    Trusted rsa item.2 :=
  trusted item.1 item.2 (find?_of_mem member)

theorem AllTrusted.emplaceKey (dcId : DcId) {fingerprint : UInt64} {key : Key}
    (valid : rsa.valid key = true) (own : rsa.fingerprint key = fingerprint) :
    AllTrusted rsa (emplaceKey keys dcId fingerprint key) := by
  have known : ∀ other ∈ ((keys.find? dcId).getD ∅).entries,
      rsa.valid other.2 = true ∧ rsa.fingerprint other.2 = other.1 := by
    intro other member
    cases found : keys.find? dcId with
    | none =>
      rw [found] at member
      cases member
    | some group =>
      rw [found] at member
      have groupTrusted := trusted dcId group found
      exact ⟨groupTrusted.valid other member, groupTrusted.fingerprint other member⟩
  have kept : ∀ other ∈ (addKey ((keys.find? dcId).getD ∅) (fingerprint, key)).entries,
      rsa.valid other.2 = true ∧ rsa.fingerprint other.2 = other.1 := by
    intro other member
    rcases mem_of_mem_emplaceEntry member with rfl | old
    · exact ⟨valid, own⟩
    · exact known other old
  have amended : Trusted rsa (addKey ((keys.find? dcId).getD ∅) (fingerprint, key)) := by
    refine ⟨?_, fun other member => (kept other member).1,
      fun other member => (kept other member).2⟩
    intro none
    exact emplace_ne_empty _ _ _ (ext_entries none)
  have amends : DcOptions.emplaceKey keys dcId fingerprint key =
      keys.amend ∅ addKey (dcId, (fingerprint, key)) := rfl
  intro other group found
  rw [amends] at found
  refine forall_amend trusted ?_ other group found
  exact amended

theorem AllTrusted.applyKey (data : CdnPublicKey) : AllTrusted rsa (applyKey rsa keys data) := by
  unfold DcOptions.applyKey
  dsimp only
  split
  next valid =>
    exact trusted.emplaceKey data.dcId valid rfl
  · exact trusted

theorem AllTrusted.insertAll {added : List (DcId × UInt64 × Key)}
    (good : ∀ entry ∈ added, rsa.valid entry.2.2 = true ∧ rsa.fingerprint entry.2.2 = entry.2.1) :
    AllTrusted rsa (added.foldl
      (fun keys entry => DcOptions.emplaceKey keys entry.1 entry.2.1 entry.2.2) keys) := by
  induction added generalizing keys with
  | nil => exact trusted
  | cons entry added ih =>
    obtain ⟨valid, fingerprint⟩ := good entry (by simp)
    exact ih (trusted.emplaceKey entry.1 valid fingerprint)
      fun other member => good other (by simp [member])

theorem AllTrusted.keysOf {entry : DcId × UInt64 × Key} (member : entry ∈ keysOf keys) :
    rsa.valid entry.2.2 = true ∧ rsa.fingerprint entry.2.2 = entry.2.1 := by
  obtain ⟨item, itemMem, entryMem⟩ := mem_flatMap.mp member
  obtain ⟨inner, innerMem, rfl⟩ := mem_map.mp entryMem
  have itemTrusted := trusted.of_mem itemMem
  exact ⟨itemTrusted.valid inner innerMem, itemTrusted.fingerprint inner innerMem⟩

end

variable (rsa) in
/-- A key that is made of its numbers again. -/
def rebuilt (key : Key) : Key := rsa.ofNumbers (rsa.getN key) (rsa.getE key)

variable (rsa) in
/-- The key that is constructed from the numbers of a valid key is that key. -/
def KeepsNumbers : Prop :=
  ∀ key, rsa.valid key = true →
    rsa.valid (rebuilt rsa key) = true ∧
      rsa.fingerprint (rebuilt rsa key) = rsa.fingerprint key

/-- Keys that are read one after another, each under its own fingerprint. -/
def emplaceRebuilt (rsa : RSAPublicKey Key) (keys : CdnPublicKeys Key)
    (entry : DcId × UInt64 × Key) : CdnPublicKeys Key :=
  emplaceKey keys entry.1 (rsa.fingerprint (rebuilt rsa entry.2.2)) (rebuilt rsa entry.2.2)

theorem find?_emplaceRebuilt (keeps : KeepsNumbers rsa) (trusted : AllTrusted rsa keys)
    (dcId : DcId) :
    ((keysOf keys).foldl (emplaceRebuilt rsa) ∅).find? dcId =
      (keys.find? dcId).map fun group => group.mapValues (rebuilt rsa) := by
  let groups : List (DcId × List (UInt64 × Key)) := keys.entries.map fun item =>
    (item.1, (item.2.mapValues (rebuilt rsa)).entries)
  have items : ((keysOf keys).map fun entry => (entry.1, entry.2.1, rebuilt rsa entry.2.2)) =
      groups.flatMap labelled := by
    rw [DcOptions.keysOf, map_flatMap, flatMap_map]
    apply flatMap_congr
    intro item member
    simp [labelled, mapValues]
  have steps : (keysOf keys).foldl (emplaceRebuilt rsa) ∅ =
      (groups.flatMap labelled).foldl (amend ∅ addKey) ∅ := by
    rw [← items, foldl_map]
    apply foldl_ext
    intro result entry member
    obtain ⟨valid, fingerprint⟩ := trusted.keysOf member
    rw [emplaceRebuilt, (keeps entry.2.2 valid).2, fingerprint]
    rfl
  have distinct : groups.Pairwise fun first second => first.1 ≠ second.1 := by
    rw [pairwise_map]
    exact keys.increasing.imp fun below => ne_of_lt below
  have filled : ∀ group ∈ groups, group.2 ≠ [] := by
    intro group member
    obtain ⟨item, itemMem, rfl⟩ := mem_map.mp member
    simpa [mapValues] using (trusted.of_mem itemMem).filled
  have searched : (groups.find? fun group => group.1 = dcId) =
      (keys.entries.find? fun item => item.1 = dcId).map fun item =>
        (item.1, (item.2.mapValues (rebuilt rsa)).entries) := find?_map ..
  rw [steps, find?_foldl_amend distinct filled, searched]
  unfold FlatMap.find?
  cases keys.entries.find? fun item => item.1 = dcId with
  | none => rfl
  | some item =>
    exact congrArg some (emplaceAll_entries (item.2.mapValues (rebuilt rsa)))

end Keys

section Runs

variable {Key : Type*} (rsa : RSAPublicKey Key)

/-- Options that are constructed and changed by calls that keep their promises. -/
inductive Reachable : DcOptions Key → Prop
  | construct (environment : Environment) : Reachable (construct environment)
  | constructFromBuiltIn {options : DcOptions Key} (reachable : Reachable options) :
      Reachable options.constructFromBuiltIn
  | constructAddOne {options : DcOptions Key} (reachable : Reachable options) (id : Int32)
      (flags : UInt32) (ip : Bytes) (port : Int32) (secret : Bytes)
      (filled : 0 < ip.length) (short : ip.length ≤ 45) (valid : validateSecret secret = true) :
      Reachable (options.constructAddOne id flags ip port secret)
  | setFromList {options next : DcOptions Key} (reachable : Reachable options)
      (list : List MTPDcOption)
      (acceptable : ∀ option ∈ list, ∀ endpoint ∈ option.endpoint?, endpoint.Acceptable)
      (done : options.setFromList list = some next) : Reachable next
  | addFromList {options next : DcOptions Key} (reachable : Reachable options)
      (list : List MTPDcOption)
      (acceptable : ∀ option ∈ list, ∀ endpoint ∈ option.endpoint?, endpoint.Acceptable)
      (done : options.addFromList list = some next) : Reachable next
  | addFromOther {options other : DcOptions Key} (reachable : Reachable options)
      (otherReachable : Reachable other) : Reachable (options.addFromOther other)
  | setCDNConfig {options : DcOptions Key} (reachable : Reachable options)
      (config : List CdnPublicKey) : Reachable (options.setCDNConfig rsa config)

/-- What holds of the options of a running program. -/
structure Kept (options : DcOptions Key) : Prop where
  listed : AllListed options.data
  trusted : AllTrusted rsa options.cdnPublicKeys
  own : options.immutable = false

variable {rsa}

theorem BuiltInDc.endpoint_acceptable {entry : BuiltInDc} (flags : UInt32)
    (member : entry ∈ kBuiltInDcs ++ kBuiltInDcsIPv6 ++ kBuiltInDcsTest ++ kBuiltInDcsIPv6Test) :
    (entry.endpoint flags).Acceptable := by
  have lengths : ∀ entry ∈ kBuiltInDcs ++ kBuiltInDcsIPv6 ++ kBuiltInDcsTest ++
      kBuiltInDcsIPv6Test, 0 < entry.ip.toList.length ∧ entry.ip.toList.length ≤ 45 := by
    decide
  obtain ⟨filled, short⟩ := lengths entry member
  refine ⟨?_, ?_, rfl⟩
  · rwa [endpoint, length_map]
  · rwa [endpoint, length_map]

theorem builtIn_acceptable (options : DcOptions Key) :
    ∀ endpoint ∈ options.builtIn, endpoint.Acceptable := by
  intro endpoint member
  rcases mem_append.mp member with isFirst | isSecond
  · obtain ⟨entry, entryMem, rfl⟩ := mem_map.mp isFirst
    apply BuiltInDc.endpoint_acceptable
    split at entryMem <;> simp [entryMem]
  · obtain ⟨entry, entryMem, rfl⟩ := mem_map.mp isSecond
    apply BuiltInDc.endpoint_acceptable
    split at entryMem <;> simp [entryMem]

theorem Kept.constructFromBuiltIn {options : DcOptions Key} (kept : Kept rsa options) :
    Kept rsa options.constructFromBuiltIn :=
  ⟨allListed_empty.applyAll options.builtIn_acceptable, kept.trusted, kept.own⟩

theorem kept_construct (environment : Environment) :
    Kept rsa (construct environment : DcOptions Key) :=
  Kept.constructFromBuiltIn ⟨allListed_empty, allTrusted_empty, rfl⟩

theorem Kept.processFromList {options next : DcOptions Key} (kept : Kept rsa options)
    {list : List MTPDcOption} {overwrite : Bool}
    (acceptable : ∀ option ∈ list, ∀ endpoint ∈ option.endpoint?, endpoint.Acceptable)
    (done : options.processFromList list overwrite = some next) : Kept rsa next := by
  unfold DcOptions.processFromList at done
  split at done
  · cases done
    exact kept
  · obtain ⟨difference, -, rfl⟩ := Option.map_eq_some_iff.mp done
    have started : AllListed (if overwrite then ∅ else options.data) := by
      split
      · exact allListed_empty
      · exact kept.listed
    have endpoints : ∀ endpoint ∈ list.filterMap MTPDcOption.endpoint?,
        endpoint.Acceptable := by
      intro endpoint member
      obtain ⟨option, optionMem, isEndpoint⟩ := mem_filterMap.mp member
      exact acceptable option optionMem endpoint isEndpoint
    split
    · exact kept
    · exact ⟨started.applyAll endpoints, kept.trusted, kept.own⟩

theorem Kept.addFromOther {options other : DcOptions Key} (kept : Kept rsa options)
    (otherKept : Kept rsa other) : Kept rsa (options.addFromOther other) := by
  unfold DcOptions.addFromOther
  split
  · exact kept
  · refine ⟨kept.listed.applyAll ?_, ?_, kept.own⟩
    · intro endpoint member
      obtain ⟨item, itemMem, endpointMem⟩ := mem_flatMap.mp member
      exact (otherKept.listed.of_mem itemMem).acceptable endpoint endpointMem
    · exact kept.trusted.insertAll fun entry member => otherKept.trusted.keysOf member

theorem allTrusted_applyKeys {keys : CdnPublicKeys Key} (trusted : AllTrusted rsa keys)
    (config : List CdnPublicKey) : AllTrusted rsa (config.foldl (applyKey rsa) keys) := by
  induction config generalizing keys with
  | nil => exact trusted
  | cons data config ih => exact ih (trusted.applyKey data)

theorem Reachable.kept {options : DcOptions Key} (reachable : Reachable rsa options) :
    Kept rsa options := by
  induction reachable with
  | construct environment => exact kept_construct environment
  | constructFromBuiltIn _ ih => exact ih.constructFromBuiltIn
  | constructAddOne _ id flags ip port secret filled short valid ih =>
    exact ⟨ih.listed.applyOneOption ⟨filled, short, valid⟩, ih.trusted, ih.own⟩
  | setFromList _ list acceptable done ih => exact ih.processFromList acceptable done
  | addFromList _ list acceptable done ih => exact ih.processFromList acceptable done
  | addFromOther _ _ ih otherIH => exact ih.addFromOther otherIH
  | setCDNConfig _ config ih =>
    exact ⟨ih.listed, allTrusted_applyKeys allTrusted_empty config, ih.own⟩

end Runs

section Reading

open DataStream (writeInt32 writeSize writeBytes)

def shortSecret (endpoint : Endpoint) : Bool := endpoint.secret.length ≤ 32

theorem readSecret_write {secret : Bytes} (small : secret.length < 2 ^ 31) (rest : Bytes) :
    readSecret 2 ⟨writeSize secret.length ++ secret ++ rest, true⟩ =
      if secret.length ≤ 32 then some (secret, ⟨rest, true⟩) else none := by
  have size := toInt_size small
  have zero : (0 : Int32).toInt = 0 := rfl
  have limit : kMaxSecretSize.toInt = 32 := rfl
  have nonneg : ¬(UInt32.ofNat secret.length).toInt32 < 0 := by
    rw [Int32.lt_iff_toInt_lt, size]
    omega
  have long : kMaxSecretSize < (UInt32.ofNat secret.length).toInt32 ↔ 32 < secret.length := by
    rw [Int32.lt_iff_toInt_lt, size]
    omega
  have positive : 0 < (UInt32.ofNat secret.length).toInt32 ↔ 0 < secret.length := by
    rw [Int32.lt_iff_toInt_lt, size]
    omega
  unfold readSecret
  rw [if_pos (by decide), append_assoc, readInt32_writeSize]
  simp only [nonneg, long, positive, decide_false, Bool.false_or, decide_eq_true_eq,
    toNat_size small]
  by_cases short : secret.length ≤ 32
  · rw [if_neg (not_lt.mpr short), if_pos short]
    split
    · rw [readRawData_append rfl]
    next none =>
      rw [length_pos_iff, not_not] at none
      rw [none]
      rfl
  · rw [if_pos (not_le.mp short), if_neg short]

theorem readEndpoint_serialize {endpoint : Endpoint} (acceptable : endpoint.Acceptable)
    (small : endpoint.secret.length < 2 ^ 31) (rest : Bytes) :
    readEndpoint 2 ⟨serializeEndpoint endpoint ++ rest, true⟩ =
      if shortSecret endpoint then some (endpoint, ⟨rest, true⟩) else none := by
  have filled := acceptable.ip_filled
  have short := acceptable.ip_short
  have fits : endpoint.ip.length < 2 ^ 31 := by omega
  have size := toInt_size fits
  have zero : (0 : Int32).toInt = 0 := rfl
  have limit : kMaxIpSize.toInt = 45 := rfl
  have positive : ¬(UInt32.ofNat endpoint.ip.length).toInt32 ≤ 0 := by
    rw [Int32.le_iff_toInt_le, size]
    omega
  have inside : ¬kMaxIpSize < (UInt32.ofNat endpoint.ip.length).toInt32 := by
    rw [Int32.lt_iff_toInt_lt, size]
    omega
  have parts : serializeEndpoint endpoint ++ rest =
      writeInt32 endpoint.id ++ (writeInt32 endpoint.flags.toInt32 ++
        (writeInt32 endpoint.port ++ (writeSize endpoint.ip.length ++ (endpoint.ip ++
          (writeSize endpoint.secret.length ++ endpoint.secret ++ rest))))) := by
    simp [serializeEndpoint]
  unfold readEndpoint
  rw [parts]
  simp only [readInt32_write, readInt32_writeSize, positive, inside, decide_false, Bool.or_false,
    Bool.false_eq_true, if_false, toNat_size fits, readRawData_append rfl, readSecret_write small]
  unfold shortSecret
  by_cases taken : endpoint.secret.length ≤ 32
  · simp [taken]
  · simp [taken]

/-- The loop applies the endpoints that were written, or stops at a secret that
is too long. -/
theorem readEndpoints_serialize {endpoints : List Endpoint}
    (acceptable : ∀ endpoint ∈ endpoints, endpoint.Acceptable)
    (small : ∀ endpoint ∈ endpoints, endpoint.secret.length < 2 ^ 31) (rest : Bytes) (data : Data) :
    readEndpoints 2 endpoints.length ⟨endpoints.flatMap serializeEndpoint ++ rest, true⟩ data =
        (applyAll data endpoints, some ⟨rest, true⟩) ∧ endpoints.all shortSecret = true ∨
      (readEndpoints 2 endpoints.length ⟨endpoints.flatMap serializeEndpoint ++ rest, true⟩
        data).2 = none ∧ endpoints.all shortSecret = false := by
  induction endpoints generalizing data with
  | nil => exact .inl ⟨rfl, rfl⟩
  | cons endpoint endpoints ih =>
    have later := ih (fun other member => acceptable other (by simp [member]))
      (fun other member => small other (by simp [member])) (applyOneOption data endpoint).1
    have first := readEndpoint_serialize (acceptable endpoint (by simp))
      (small endpoint (by simp)) (endpoints.flatMap serializeEndpoint ++ rest)
    rw [length_cons, flatMap_cons, append_assoc, all_cons]
    unfold readEndpoints
    rw [first]
    cases short : shortSecret endpoint with
    | false => exact .inr ⟨rfl, rfl⟩
    | true => exact later

theorem readKeys_serialize {Key : Type*} {rsa : RSAPublicKey Key} (keeps : KeepsNumbers rsa)
    {written : List (DcId × UInt64 × Key)}
    (valid : ∀ entry ∈ written, rsa.valid entry.2.2 = true)
    (small : ∀ entry ∈ written, (rsa.getN entry.2.2).length < 2 ^ 31 ∧
      (rsa.getE entry.2.2).length < 2 ^ 31) (rest : Bytes) (keys : CdnPublicKeys Key) :
    readKeys rsa written.length ⟨written.flatMap (serializeKey rsa) ++ rest, true⟩ keys =
      (written.foldl (emplaceRebuilt rsa) keys, true) := by
  induction written generalizing keys with
  | nil => rfl
  | cons entry written ih =>
    obtain ⟨nSmall, eSmall⟩ := small entry (by simp)
    have rebuiltValid := (keeps entry.2.2 (valid entry (by simp))).1
    have later := ih (fun other member => valid other (by simp [member]))
      (fun other member => small other (by simp [member])) (emplaceRebuilt rsa keys entry)
    have parts : (entry :: written).flatMap (serializeKey rsa) ++ rest =
        writeInt32 entry.1 ++ (writeBytes (rsa.getN entry.2.2) ++
          (writeBytes (rsa.getE entry.2.2) ++
            (written.flatMap (serializeKey rsa) ++ rest))) := by
      simp [serializeKey]
    rw [parts, length_cons, readKeys]
    simp only [readInt32_write, readBytes_write nSmall,
      readBytes_write eSmall, Bool.not_true, Bool.false_eq_true, if_false]
    rw [rebuilt] at rebuiltValid
    rw [if_pos rebuiltValid]
    exact later

end Reading

section RoundTrip

open DataStream (writeInt32 writeSize)

variable {Key : Type*} (rsa : RSAPublicKey Key) (options : DcOptions Key)

/-- The fingerprints of the keys of a data center. -/
def fingerprints (dcId : DcId) : Option (List UInt64) :=
  (options.cdnPublicKeys.find? dcId).map fun keys => keys.entries.map Prod.fst

/-- Other options have the same endpoints, except for temporary data centers, and
keys with the same fingerprints. -/
structure Restores (restored : DcOptions Key) : Prop where
  endpoints : ∀ dcId, isTemporaryDcId dcId = false →
    restored.data.find? dcId = options.data.find? dcId
  fingerprints : ∀ dcId, restored.fingerprints dcId = options.fingerprints dcId

/-- The options are read from what was written of them. -/
def Survives (environment : Environment) : Prop :=
  let read := (construct environment).constructFromSerialized rsa (options.serialize rsa)
  read.2 = true ∧ options.Restores read.1

/-- The secrets of the data centers that are written have at most 32 bytes. -/
def ShortSecrets : Prop :=
  ∀ dcId list, options.data.find? dcId = some list → isTemporaryDcId dcId = false →
    ∀ endpoint ∈ list, endpoint.secret.length ≤ 32

variable {rsa options}

theorem shortSecrets_iff :
    options.ShortSecrets ↔ options.writtenEndpoints.all shortSecret = true := by
  rw [all_eq_true]
  constructor
  · intro short endpoint member
    obtain ⟨item, itemMem, endpointMem⟩ := mem_flatMap.mp member
    obtain ⟨itemMem, lasting⟩ := List.mem_filter.mp itemMem
    exact decide_eq_true (short item.1 item.2 (find?_of_mem itemMem)
      (by simpa using lasting) endpoint endpointMem)
  · intro short dcId list found lasting endpoint member
    have written : endpoint ∈ options.writtenEndpoints := by
      refine List.mem_flatMap.mpr ⟨(dcId, list), List.mem_filter.mpr ⟨?_, ?_⟩, member⟩
      · exact FlatMap.find?_eq_some.mp found
      · simp [lasting]
    exact of_decide_eq_true (short endpoint written)

theorem length_le_flatMap {α : Type*} {items : List α} {item : α} (member : item ∈ items)
    (bytes : α → Bytes) : (bytes item).length ≤ (items.flatMap bytes).length := by
  obtain ⟨before, after, rfl⟩ := append_of_mem member
  rw [flatMap_append, flatMap_cons, length_append, length_append]
  omega

theorem count_le_flatMap {α : Type*} (items : List α) (bytes : α → Bytes)
    (filled : ∀ item, 0 < (bytes item).length) :
    items.length ≤ (items.flatMap bytes).length := by
  induction items with
  | nil => exact Nat.zero_le _
  | cons item items ih =>
    have first := filled item
    rw [flatMap_cons, length_append, length_cons]
    omega

theorem serializeEndpoint_pos (endpoint : Endpoint) :
    0 < (serializeEndpoint endpoint).length ∧
      endpoint.secret.length ≤ (serializeEndpoint endpoint).length := by
  simp only [serializeEndpoint, length_append, length_writeInt32, length_writeSize]
  omega

theorem serializeKey_pos (rsa : RSAPublicKey Key) (key : DcId × UInt64 × Key) :
    0 < (serializeKey rsa key).length ∧
      (rsa.getN key.2.2).length ≤ (serializeKey rsa key).length ∧
      (rsa.getE key.2.2).length ≤ (serializeKey rsa key).length := by
  have nLength := length_le_writeBytes (rsa.getN key.2.2)
  have eLength := length_le_writeBytes (rsa.getE key.2.2)
  simp only [serializeKey, length_append, length_writeInt32]
  omega

/-- All lengths that are written fit in an `int32`. -/
structure Fits (rsa : RSAPublicKey Key) (options : DcOptions Key) : Prop where
  endpoints : options.writtenEndpoints.length < 2 ^ 31
  secrets : ∀ endpoint ∈ options.writtenEndpoints, endpoint.secret.length < 2 ^ 31
  keys : (keysOf options.cdnPublicKeys).length < 2 ^ 31
  numbers : ∀ key ∈ keysOf options.cdnPublicKeys,
    (rsa.getN key.2.2).length < 2 ^ 31 ∧ (rsa.getE key.2.2).length < 2 ^ 31

theorem fits_of_length (held : (options.serializeKept rsa).length < 2 ^ 31) :
    Fits rsa options := by
  have endpoints := count_le_flatMap options.writtenEndpoints serializeEndpoint
    fun endpoint => (serializeEndpoint_pos endpoint).1
  have keys := count_le_flatMap (keysOf options.cdnPublicKeys) (serializeKey rsa)
    fun key => (serializeKey_pos rsa key).1
  simp only [serializeKept, length_append, length_writeInt32, length_writeSize] at held
  refine ⟨by omega, ?_, by omega, ?_⟩
  · intro endpoint member
    have whole := length_le_flatMap member serializeEndpoint
    have secret := (serializeEndpoint_pos endpoint).2
    omega
  · intro key member
    have whole := length_le_flatMap member (serializeKey rsa)
    have numbers := (serializeKey_pos rsa key).2
    omega

theorem constructFromSerialized_serializeKept {fresh : DcOptions Key}
    (keeps : KeepsNumbers rsa) (kept : Kept rsa options) (fits : Fits rsa options) :
    (fresh.constructFromSerialized rsa (options.serializeKept rsa) =
        ({ fresh with
            data := applyAll ∅ options.writtenEndpoints
            cdnPublicKeys :=
              (keysOf options.cdnPublicKeys).foldl (emplaceRebuilt rsa) fresh.cdnPublicKeys },
          true) ∧ options.writtenEndpoints.all shortSecret = true) ∨
      ((fresh.constructFromSerialized rsa (options.serializeKept rsa)).2 = false ∧
        options.writtenEndpoints.all shortSecret = false) := by
  have acceptable : ∀ endpoint ∈ options.writtenEndpoints, endpoint.Acceptable := by
    intro endpoint member
    obtain ⟨item, itemMem, endpointMem⟩ := mem_flatMap.mp member
    exact (kept.listed.of_mem (List.mem_filter.mp itemMem).1).acceptable endpoint endpointMem
  obtain ⟨afterEndpoints, afterEq⟩ : ∃ bytes : Bytes,
      bytes = writeSize (keysOf options.cdnPublicKeys).length ++
        ((keysOf options.cdnPublicKeys).flatMap (serializeKey rsa) ++ []) := ⟨_, rfl⟩
  have parts : options.serializeKept rsa =
      writeInt32 (-kVersion) ++ (writeSize options.writtenEndpoints.length ++
        (options.writtenEndpoints.flatMap serializeEndpoint ++ afterEndpoints)) := by
    simp [serializeKept, afterEq]
  have version : (if -kVersion < 0 then -(-kVersion).toInt else 0) = 2 := by decide
  have loop := readEndpoints_serialize acceptable fits.secrets afterEndpoints ∅
  have keys := readKeys_serialize keeps (fun key member => (kept.trusted.keysOf member).1)
    fits.numbers [] fresh.cdnPublicKeys
  have positive : (0 : Int) < 2 := by decide
  unfold constructFromSerialized
  rw [parts, readInt32_write]
  simp only [version, if_pos positive, readInt32_writeSize,
    toNat_size fits.endpoints, Bool.not_true, Bool.false_eq_true, if_false]
  rcases loop with ⟨read, short⟩ | ⟨refused, long⟩
  · left
    refine ⟨?_, short⟩
    rw [read]
    simp only [afterEq, readInt32_writeSize, toNat_size fits.keys, keys]
    rfl
  · right
    refine ⟨?_, long⟩
    cases read : readEndpoints 2 options.writtenEndpoints.length
      ⟨options.writtenEndpoints.flatMap serializeEndpoint ++ afterEndpoints, true⟩ ∅ with
    | mk data stream =>
      rw [read] at refused
      subst refused
      rfl

theorem find?_applyAll_written (kept : Kept rsa options) {dcId : DcId}
    (lasting : isTemporaryDcId dcId = false) :
    (applyAll ∅ options.writtenEndpoints).find? dcId = options.data.find? dcId := by
  have rebuilt := applyAll_entries (kept.listed.filter fun dcId => !isTemporaryDcId dcId)
  have written : options.writtenEndpoints =
      (options.data.filter fun item => !isTemporaryDcId item.1).entries.flatMap Prod.snd := rfl
  rw [written, rebuilt, @FlatMap.find?_filter _ _ _ _ _ fun dcId => !isTemporaryDcId dcId, lasting]
  rfl

/-- Options that can be reached are read back by fresh options exactly if none of
the secrets that are written has more than 32 bytes.  A byte array holds less than
2^31 bytes. -/
theorem survives_iff (keeps : KeepsNumbers rsa) (reachable : Reachable rsa options)
    (held : (options.serialize rsa).length < 2 ^ 31) (environment : Environment) :
    options.Survives rsa environment ↔ options.ShortSecrets := by
  have kept := reachable.kept
  have writes : options.serialize rsa = options.serializeKept rsa := by
    rw [serialize, kept.own]
    rfl
  rw [writes] at held
  rw [shortSecrets_iff, Survives, writes]
  have result := @constructFromSerialized_serializeKept _ _ _ (construct environment) keeps kept
    (fits_of_length held)
  rcases result with ⟨read, short⟩ | ⟨refused, long⟩
  · rw [read, short]
    refine iff_of_true ⟨rfl, ?_, ?_⟩ rfl
    · intro dcId lasting
      exact find?_applyAll_written kept lasting
    · intro dcId
      have rebuilt := find?_emplaceRebuilt keeps kept.trusted dcId
      have same : ∀ group : FlatMap UInt64 Key,
          (group.mapValues (DcOptions.rebuilt rsa)).entries.map Prod.fst =
            group.entries.map Prod.fst := by
        intro group
        rw [mapValues, map_map]
        rfl
      change Option.map _ (find? (foldl (emplaceRebuilt rsa) ∅ _) dcId) = _
      rw [rebuilt, Option.map_map]
      exact Option.map_congr fun group _ => same group
  · rw [refused, long]
    simp

/-- Keys that are their two numbers; none is read from bytes. -/
def numbersOnly : RSAPublicKey (Bytes × Bytes) where
  ofBytes _ := ([], [])
  ofNumbers n e := (n, e)
  valid key := key.1 ≠ []
  fingerprint key := UInt64.ofNat (ofLittleEndian key.1)
  getN := Prod.fst
  getE := Prod.snd

/-- The built-in options and one more with a secret of the fake TLS protocol. -/
def withSecret (length : Nat) : DcOptions (Bytes × Bytes) :=
  (construct .production).constructAddOne 2 0 [49, 50, 55, 46, 49] 443
    (0xEE :: List.replicate length 0x61)

theorem withSecret_reachable {length : Nat} (long : 20 ≤ length) :
    Reachable numbersOnly (withSecret length) := by
  refine (Reachable.construct .production).constructAddOne _ _ _ _ _ (by decide) (by decide) ?_
  have enough : 21 ≤ length + 1 := by omega
  simp [validateSecret, enough]

theorem survives_iff_withSecret :
    KeepsNumbers numbersOnly ∧ ((withSecret 31).serialize numbersOnly).length < 2 ^ 31 ∧
      ((withSecret 31).Survives numbersOnly .test ↔ (withSecret 31).ShortSecrets) :=
  have keeps : KeepsNumbers numbersOnly := fun _ valid => ⟨valid, rfl⟩
  have held : ((withSecret 31).serialize numbersOnly).length < 2 ^ 31 := by decide +kernel
  ⟨keeps, held, survives_iff keeps (withSecret_reachable (by decide)) held .test⟩

/-- A valid secret of 33 bytes is written and makes the reader refuse everything. -/
theorem withSecret_not_survives :
    KeepsNumbers numbersOnly ∧ Reachable numbersOnly (withSecret 32) ∧
      ¬(withSecret 32).Survives numbersOnly .production := by
  refine ⟨fun _ valid => ⟨valid, rfl⟩, withSecret_reachable (by decide), ?_⟩
  have refused : ((construct .production).constructFromSerialized numbersOnly
      ((withSecret 32).serialize numbersOnly)).2 = false := by
    decide +kernel
  intro survives
  rw [survives.1] at refused
  cases refused

end RoundTrip

end TelegramDesktop.DcOptions
