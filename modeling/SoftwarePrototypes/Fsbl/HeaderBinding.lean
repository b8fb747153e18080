import SoftwarePrototypes.Fsbl.Bench
import SoftwarePrototypes.Fsbl.WalkOrder

/-! # Header authentication binds the table

The hash that is authenticated is taken over the image headers, the table in memory and the
certificate. The table in memory is the one that is walked.
-/

namespace SoftwarePrototypes.Fsbl

open Interaction Interaction.Prog

/-! ## What the table's words determine -/

section Words

theorem fields_length (h : PartHeader) : h.fields.length = 16 := rfl

theorem fields_injective {h h' : PartHeader} (hSame : h.fields = h'.fields) : h = h' := by
  obtain ⟨_, _, _, _, _, _, _, _, _, _, _, ⟨_, _, _, _⟩, _⟩ := h
  obtain ⟨_, _, _, _, _, _, _, _, _, _, _, ⟨_, _, _, _⟩, _⟩ := h'
  simp only [PartHeader.fields, List.cons.injEq, and_true] at hSame
  simp [hSame]

/-- The words of the first `n` headers. -/
def headerWords (header : Nat → PartHeader) (n : Nat) : List U32 :=
  (List.range n).flatMap fun i => (header i).fields

theorem headerWords_succ (header : Nat → PartHeader) (n : Nat) :
    headerWords header (n + 1) = headerWords header n ++ (header n).fields := by
  simp [headerWords, List.range_succ]

theorem headerWords_length (header : Nat → PartHeader) (n : Nat) :
    (headerWords header n).length = 16 * n := by
  induction n with
  | zero => rfl
  | succ n ih =>
    rw [headerWords_succ, List.length_append, ih, fields_length]
    omega

theorem headerWords_injective {header header' : Nat → PartHeader} {n : Nat}
    (hSame : headerWords header n = headerWords header' n) : ∀ i < n, header i = header' i := by
  induction n with
  | zero => exact fun i hi => absurd hi (Nat.not_lt_zero i)
  | succ n ih =>
    rw [headerWords_succ, headerWords_succ] at hSame
    obtain ⟨hInit, hLast⟩ := List.append_inj' hSame rfl
    intro i hi
    obtain hBelow | rfl := Nat.lt_succ_iff_lt_or_eq.mp hi
    · exact ih hInit i hBelow
    · exact fields_injective hLast

theorem countFrom_congr {header header' : Nat → PartHeader} (left count : Nat)
    (hSame : ∀ i < count + left, header i = header' i) :
    countFrom header left count = countFrom header' left count := by
  induction left generalizing count with
  | zero => rfl
  | succ left ih =>
    rw [countFrom, countFrom, hSame count (by omega)]
    split
    · rfl
    · exact ih (count + 1) fun i hi => hSame i (by omega)

variable {f : Setup}

theorem getPartitionCount_congr {header header' : Nat → PartHeader}
    (hSame : ∀ i < f.maxPartitionNumber, header i = header' i) :
    getPartitionCount f header = getPartitionCount f header' :=
  countFrom_congr _ 0 fun i hi => hSame i (by omega)

/-- The headers have the size of the table. -/
def TableSize (f : Setup) : Prop :=
  f.totalPartitionHeaderSize.toNat = 64 * f.maxPartitionNumber

theorem tableWords_whole (hSize : TableSize f) (header : Nat → PartHeader) :
    tableWords f header f.totalPartitionHeaderSize = headerWords header f.maxPartitionNumber := by
  have hLength := headerWords_length header f.maxPartitionNumber
  apply List.take_of_length_le
  rw [← headerWords, hLength, hSize]
  omega

end Words

/-! ## What a run hashes and authenticates -/

section Hash

variable (f : Setup)

def imageHeadersSize : U32 := f.imageHeaderTableSize + f.totalImageHeaderSize

def certificateSize : U32 :=
  f.totalHeaderSize + f.rsaSignatureSize - (imageHeadersSize f + f.totalPartitionHeaderSize)

def headerMessage (images : List U32) (header : Nat → PartHeader) (certificate : List U32) :
    List U32 :=
  images.take ((imageHeadersSize f).toNat / 4) ++
    tableWords f header f.totalPartitionHeaderSize ++
    certificate.take ((certificateSize f - f.rsaPartitionSignatureSize).toNat / 4)

/-- The image headers have been read, hashed with the table and authenticated. -/
structure HeaderHash (L : List Event) (images : List U32) (header : Nat → PartHeader)
    (certificate : List U32) (hash : Sha256) : Prop where
  read : ∃ source, (⟨.moveImage source (.headerBuffer (hdrTmpPtr f)) (imageHeadersSize f),
    (.success, images)⟩ : Event) ∈ L
  hashed : (⟨.sha2 (headerMessage f images header certificate), hash⟩ : Event) ∈ L
  authentic : ∃ ac, (⟨.authenticatePartition ac hash, Status.success⟩ : Event) ∈ L

/-- The hash is the SHA-256 of the message, and a buffer is filled by as many bytes as are read. -/
structure Faithful (sha : List U32 → Sha256) (L : List Event) : Prop where
  hashed : ∀ message hash, (⟨.sha2 message, hash⟩ : Event) ∈ L → hash = sha message
  filled : ∀ source addr bytes words, (⟨.moveImage source (.headerBuffer addr) bytes,
    (.success, words)⟩ : Event) ∈ L → words.length = bytes.toNat / 4

def hashedMessages (L : List Event) : List (List U32) :=
  L.filterMap fun event => match event.1 with
    | .sha2 message => some message
    | _ => none

/-- No two messages hashed in the two runs collide. -/
def CollisionFree (sha : List U32 → Sha256) (L L' : List Event) : Prop :=
  ∀ message ∈ hashedMessages L, ∀ message' ∈ hashedMessages L',
    sha message = sha message' → message = message'

def AuthenticatedWith (hash : Sha256) (L : List Event) : Prop :=
  ∃ ac status, (⟨.authenticatePartition ac hash, status⟩ : Event) ∈ L

variable {f} {L : List Event}

def Op.Unauthenticated (e : Op) : Prop := ∀ ac hash, e ≠ .authenticatePartition ac hash

theorem Op.Fetches.unauthenticated {e : Op} (h : e.Fetches) : e.Unauthenticated := by
  rintro ac hash rfl
  exact h

theorem efuseStatus_unauthenticated (imageStartAddress : U32) (table : Table) :
    Only Op.Unauthenticated (efuseStatus f imageStartAddress table) := by
  refine only_ite (fun _ => ⟨nofun, fun _ => trivial⟩) fun _ => ?_
  exact only_ite (fun _ => ⟨nofun, fun _ => trivial⟩) fun _ => trivial

theorem not_authenticated_of_only {α : Type} {p : Loader α} {q : Loader α}
    (hOnly : Only Op.Unauthenticated p) (hRun : Steps p L q) (hash : Sha256) :
    ¬ AuthenticatedWith hash L := by
  rintro ⟨ac, status, hMem⟩
  exact (hOnly.steps hRun).1 _ hMem ac hash rfl

theorem mem_hashedMessages {message : List U32} {hash : Sha256}
    (hMem : (⟨.sha2 message, hash⟩ : Event) ∈ L) : message ∈ hashedMessages L :=
  List.mem_filterMap.mpr ⟨_, hMem, rfl⟩

theorem authenticatedWith_append {hash : Sha256} {M : List Event} :
    AuthenticatedWith hash (L ++ M) ↔ AuthenticatedWith hash L ∨ AuthenticatedWith hash M := by
  constructor
  · rintro ⟨ac, status, hMem⟩
    obtain hMem | hMem := List.mem_append.mp hMem
    · exact .inl ⟨ac, status, hMem⟩
    · exact .inr ⟨ac, status, hMem⟩
  · rintro (⟨ac, status, hMem⟩ | ⟨ac, status, hMem⟩)
    · exact ⟨ac, status, List.mem_append_left _ hMem⟩
    · exact ⟨ac, status, List.mem_append_right _ hMem⟩

theorem HeaderHash.mono {images : List U32} {header : Nat → PartHeader} {certificate : List U32}
    {hash : Sha256} {M : List Event} (h : HeaderHash f M images header certificate hash)
    (hSub : ∀ event ∈ M, event ∈ L) : HeaderHash f L images header certificate hash := by
  obtain ⟨⟨source, hImages⟩, hHashed, ac, hAuthentic⟩ := h
  exact ⟨⟨source, hSub _ hImages⟩, hSub _ hHashed, ac, hSub _ hAuthentic⟩

theorem getNAuthImageHeader_returns {imageBaseAddress : U32} {header : Nat → PartHeader}
    (hRun : Returns (getNAuthImageHeader f imageBaseAddress header) L .success) :
    ∃ images certificate hash, HeaderHash f L images header certificate hash ∧
      ∀ hash', AuthenticatedWith hash' L → hash' = hash := by
  obtain ⟨offset, _, rfl, hImages⟩ := returns_read hRun rfl nofun
  obtain ⟨images, _, rfl, hOffset⟩ := returns_read hImages rfl nofun
  obtain ⟨offset', _, rfl, hCertificate⟩ := returns_read hOffset rfl nofun
  obtain ⟨certificate, _, rfl, hHash⟩ := returns_read hCertificate rfl nofun
  obtain ⟨hash, _, rfl, hAuthenticate⟩ := returns_ask_bind hHash
  rw [returns_ask.mp hAuthenticate]
  refine ⟨images, certificate, hash, ?_, ?_⟩
  · constructor
    · exact ⟨_, List.mem_cons_of_mem _ List.mem_cons_self⟩
    · simp [headerMessage, imageHeadersSize, certificateSize]
    · exact ⟨hdrTmpPtr f + 64, by simp⟩
  · rintro hash' ⟨ac, status, hMem⟩
    simp only [List.mem_cons, Sigma.mk.injEq, reduceCtorEq, false_and, false_or,
      Op.authenticatePartition.injEq, heq_eq_eq, List.not_mem_nil, or_false] at hMem
    exact hMem.1.2

theorem authenticateHeaders_returns {imageStartAddress : U32} {table : Table}
    {status fsblLength : U32} {hash : Sha256}
    (hRun : Returns (authenticateHeaders f imageStartAddress table status fsblLength) L ())
    (hAuthenticated : AuthenticatedWith hash L) :
    ∃ images certificate, HeaderHash f L images table.partitionHeader certificate hash := by
  rw [authenticateHeaders] at hRun
  split at hRun
  · split at hRun
    · obtain ⟨_, _, rfl, hRest⟩ := returns_ask_bind hRun
      obtain ⟨status, N, _, rfl, hHeaders, hRequire⟩ := returns_bind hRest
      obtain ⟨rfl, rfl⟩ := returns_require hRequire
      obtain ⟨images, certificate, hash', hHash, hOnly⟩ := getNAuthImageHeader_returns hHeaders
      obtain ⟨ac, status, hMem⟩ := hAuthenticated
      rw [List.append_nil] at hMem
      obtain hFirst | hMem := List.mem_cons.mp hMem
      · cases hFirst
      · rw [hOnly hash ⟨ac, status, hMem⟩]
        refine ⟨images, certificate, hHash.mono fun event hEvent => ?_⟩
        rw [List.append_nil]
        exact List.mem_cons_of_mem _ hEvent
    · exact (fallback_not_returns hRun).elim
  · obtain ⟨rfl, -⟩ := returns_ret.mp hRun
    obtain ⟨_, _, hNone⟩ := hAuthenticated
    cases hNone

theorem secureHeaders_authenticated {imageStartAddress : U32} {table : Table} {ready : Bool}
    {hash : Sha256} (hRun : Returns (secureHeaders f imageStartAddress table) L ready)
    (hAuthenticated : AuthenticatedWith hash L) :
    ∃ images certificate, HeaderHash f L images table.partitionHeader certificate hash := by
  rw [secureHeaders] at hRun
  split at hRun
  · obtain ⟨status, M, N, rfl, hStatus, hRest⟩ := returns_bind hRun
    obtain hEarly | hLate := authenticatedWith_append.mp hAuthenticated
    · exact absurd hEarly (not_authenticated_of_only (efuseStatus_unauthenticated _ _) hStatus _)
    cases status with
    | none =>
      obtain ⟨rfl, -⟩ := returns_ret.mp hRest
      obtain ⟨_, _, hNone⟩ := hLate
      cases hNone
    | some status =>
      obtain ⟨_, N, _, rfl, hHeaders, hLast⟩ := returns_bind hRest
      obtain ⟨rfl, -⟩ := returns_ret.mp hLast
      rw [List.append_nil] at hLate ⊢
      obtain ⟨images, certificate, hHash⟩ := authenticateHeaders_returns hHeaders hLate
      exact ⟨images, certificate, hHash.mono fun event => List.mem_append_right M⟩
  · obtain ⟨rfl, -⟩ := returns_ret.mp hRun
    obtain ⟨_, _, hNone⟩ := hAuthenticated
    cases hNone

/-- Where the walk starts with headers authenticated, the hash is that of the table walked. -/
theorem prepareWalk_authenticated {imageStartAddress : U32} {table : Table} {hash : Sha256}
    (hRun : Returns (prepareWalk f) L (some (imageStartAddress, table)))
    (hAuthenticated : AuthenticatedWith hash L) :
    ∃ images certificate, HeaderHash f L images table.partitionHeader certificate hash := by
  obtain ⟨start, reading, securing, rfl, hStart, hTable, hReady⟩ := prepareWalk_returns hRun
  have hFetches : ∀ {α : Type} {p : Loader α}, Only Op.Fetches p → Only Op.Unauthenticated p :=
    fun hOnly => hOnly.mono fun _ => Op.Fetches.unauthenticated
  obtain hEarly | hLate := authenticatedWith_append.mp hAuthenticated
  · exact absurd hEarly (not_authenticated_of_only (hFetches (imageStart_only f)) hStart _)
  obtain hEarly | hLate := authenticatedWith_append.mp hLate
  · exact absurd hEarly
      (not_authenticated_of_only (hFetches (getPartitionHeaderInfo_only f _)) hTable _)
  obtain ⟨images, certificate, hHash⟩ := secureHeaders_authenticated hReady hLate
  refine ⟨images, certificate, hHash.mono fun event hMem => ?_⟩
  exact List.mem_append_right _ (List.mem_append_right _ hMem)

theorem headerMessage_injective {images images' : List U32} {header header' : Nat → PartHeader}
    {certificate certificate' : List U32} (hSize : TableSize f)
    (hLength : images.length = (imageHeadersSize f).toNat / 4)
    (hLength' : images'.length = (imageHeadersSize f).toNat / 4)
    (hSame : headerMessage f images header certificate =
      headerMessage f images' header' certificate') :
    images = images' ∧ ∀ i < f.maxPartitionNumber, header i = header' i := by
  rw [headerMessage, headerMessage, List.take_of_length_le (Nat.le_of_eq hLength),
    List.take_of_length_le (Nat.le_of_eq hLength'), tableWords_whole hSize,
    tableWords_whole hSize, List.append_assoc, List.append_assoc] at hSame
  obtain ⟨hImages, hRest⟩ := List.append_inj hSame (hLength.trans hLength'.symm)
  have hTable := List.append_inj_left hRest (by rw [headerWords_length, headerWords_length])
  exact ⟨hImages, headerWords_injective hTable⟩

/-- Two runs of the boot loader that authenticate the headers with one hash before they walk the
partitions: both walks are walks of one table, with the same image headers. -/
theorem header_binding {sha : List U32 → Sha256} {L L' M M' : List Event} {q q' : Loader Boot}
    {imageStartAddress imageStartAddress' : U32} {table table' : Table} {hash : Sha256}
    (hSize : TableSize f)
    (hRun : Steps (loadBootImage f) (L ++ M) q) (hRun' : Steps (loadBootImage f) (L' ++ M') q')
    (hWalk : Returns (prepareWalk f) L (some (imageStartAddress, table)))
    (hWalk' : Returns (prepareWalk f) L' (some (imageStartAddress', table')))
    (hFaithful : Faithful sha L) (hFaithful' : Faithful sha L') (hFree : CollisionFree sha L L')
    (hHash : AuthenticatedWith hash L) (hHash' : AuthenticatedWith hash L') :
    table.partitionCount = table'.partitionCount ∧
      (∀ i < table.partitionCount, table.partitionHeader i = table'.partitionHeader i) ∧
      (∃ passed last, Walked f imageStartAddress table (L ++ M) q passed last) ∧
      (∃ passed last, Walked f imageStartAddress' table (L' ++ M') q' passed last) ∧
      ∃ images certificate certificate',
        HeaderHash f L images table.partitionHeader certificate hash ∧
        HeaderHash f L' images table'.partitionHeader certificate' hash := by
  obtain ⟨images, certificate, hRead⟩ := prepareWalk_authenticated hWalk hHash
  obtain ⟨images', certificate', hRead'⟩ := prepareWalk_authenticated hWalk' hHash'
  have hSha := hFaithful.hashed _ _ hRead.hashed
  have hSha' := hFaithful'.hashed _ _ hRead'.hashed
  have hMessage := hFree _ (mem_hashedMessages hRead.hashed) _ (mem_hashedMessages hRead'.hashed)
    (hSha.symm.trans hSha')
  obtain ⟨source, hImages⟩ := hRead.read
  obtain ⟨source', hImages'⟩ := hRead'.read
  obtain ⟨rfl, hHeaders⟩ := headerMessage_injective hSize (hFaithful.filled _ _ _ _ hImages)
    (hFaithful'.filled _ _ _ _ hImages') hMessage
  obtain ⟨-, fsblLength, hCheck⟩ := prepareWalk_table hWalk
  obtain ⟨-, fsblLength', hCheck'⟩ := prepareWalk_table hWalk'
  have hAccepted := (checkCount_accepted hCheck).2
  have hAccepted' := (checkCount_accepted hCheck').2
  have hCount : table.partitionCount = table'.partitionCount := by
    rw [hAccepted.count, hAccepted'.count, getPartitionCount_congr hHeaders]
  have hSame : ∀ i < table.partitionCount, table.partitionHeader i = table'.partitionHeader i := by
    intro i hi
    rw [hAccepted.count] at hi
    exact hHeaders i (Nat.lt_trans hi hAccepted.bounded)
  have hFirst : firstPartition f ≤ table.partitionCount :=
    firstPartition_le (checkCount_some hCheck).2.2.2
  have hAlike : walkTable f imageStartAddress' table = walkTable f imageStartAddress' table' :=
    (walksInOrder hFirst).inside table' hCount hSame
  exact ⟨hCount, hSame, loadBootImage_walked hRun hWalk hFirst rfl,
    loadBootImage_walked hRun' hWalk' hFirst hAlike, images, certificate, certificate', hRead,
    hRead'⟩

end Hash

/-! ## Two devices -/

section Devices

def digest (message : List U32) : Sha256 :=
  message.foldl (fun sum word => sum * 0x1000193 + word.setWidth 256) 1

/-- A device with RSA enabled whose image lies where the multiboot register says. -/
def signedAnswer (multiBoot : U32) : (e : Op) → Option (Answer e)
  | .xilIn32 addr =>
    some (if addr = bench.efuseStatusReg then bench.efuseStatusRsaEnableMask else 0)
  | .readReg _ => some multiBoot
  | .moveImage _ (.headerBuffer _) bytes =>
    some (.success, List.replicate (bytes.toNat / 4) 0)
  | .sha2 message => some (digest message)
  | e => deviceAnswer (benchImage [benchApplication]) (reasonRegister 0) e

def signedTrace (multiBoot : U32) : List Event :=
  (play (signedAnswer multiBoot) 20 (prepareWalk bench)).1

theorem signedTrace_returns (multiBoot : U32) : ∃ start, Returns (prepareWalk bench)
    (signedTrace multiBoot) (some (start, ⟨benchImage [benchApplication], 2, 0⟩)) := by
  have hEnd : ∃ start, (play (signedAnswer multiBoot) 20 (prepareWalk bench)).2.returned =
      some (some (start, ⟨benchImage [benchApplication], 2, 0⟩)) := ⟨_, rfl⟩
  obtain ⟨start, hEnd⟩ := hEnd
  exact ⟨start, returns_play hEnd⟩

theorem signedTrace_faithful (multiBoot : U32) : Faithful digest (signedTrace multiBoot) := by
  constructor
  · intro message hash hMem
    have hAnswer := play_answers 20 _ _ hMem
    cases hAnswer
    rfl
  · intro source addr bytes words hMem
    have hAnswer := play_answers 20 _ _ hMem
    cases hAnswer
    exact List.length_replicate

def signedMessage : List U32 :=
  headerMessage bench (List.replicate 224 0) (benchImage [benchApplication]) (List.replicate 448 0)

theorem signedTrace_hashed (multiBoot : U32) :
    hashedMessages (signedTrace multiBoot) = [signedMessage] := rfl

theorem signedTrace_authenticated (multiBoot : U32) :
    AuthenticatedWith (digest signedMessage) (signedTrace multiBoot) := by
  have hLast : (signedTrace multiBoot)[12]? = some ⟨.authenticatePartition
      (hdrTmpPtr bench + 64) (digest signedMessage), Status.success⟩ := rfl
  exact ⟨_, _, List.mem_of_getElem? hLast⟩

/-- The walk that follows. -/
def signedWalk (multiBoot imageStartAddress : U32) : List Event × Loader Boot :=
  play (signedAnswer multiBoot) 20
    (walkTable bench imageStartAddress ⟨benchImage [benchApplication], 2, 0⟩)

theorem signedWalk_steps {multiBoot imageStartAddress : U32}
    (hWalk : Returns (prepareWalk bench) (signedTrace multiBoot)
      (some (imageStartAddress, ⟨benchImage [benchApplication], 2, 0⟩))) :
    Steps (loadBootImage bench) (signedTrace multiBoot ++ (signedWalk multiBoot
      imageStartAddress).1) (signedWalk multiBoot imageStartAddress).2 := by
  rw [loadBootImage_eq]
  exact hWalk.bind (steps_play _ 20 _)

theorem header_binding_bench : ∃ imageStartAddress imageStartAddress',
    (∃ passed last, Walked bench imageStartAddress ⟨benchImage [benchApplication], 2, 0⟩
      (signedTrace 0 ++ (signedWalk 0 imageStartAddress).1) (signedWalk 0 imageStartAddress).2
      passed last) ∧
    (∃ passed last, Walked bench imageStartAddress' ⟨benchImage [benchApplication], 2, 0⟩
      (signedTrace 1 ++ (signedWalk 1 imageStartAddress').1) (signedWalk 1 imageStartAddress').2
      passed last) ∧
    ∃ images certificate certificate',
      HeaderHash bench (signedTrace 0) images (benchImage [benchApplication]) certificate
        (digest signedMessage) ∧
      HeaderHash bench (signedTrace 1) images (benchImage [benchApplication]) certificate'
        (digest signedMessage) := by
  obtain ⟨imageStartAddress, hWalk⟩ := signedTrace_returns 0
  obtain ⟨imageStartAddress', hWalk'⟩ := signedTrace_returns 1
  have hSize : TableSize bench := rfl
  have hFree : CollisionFree digest (signedTrace 0) (signedTrace 1) := by
    intro message hMem message' hMem' _
    rw [signedTrace_hashed, List.mem_singleton] at hMem hMem'
    exact hMem.trans hMem'.symm
  exact ⟨imageStartAddress, imageStartAddress', (header_binding hSize (signedWalk_steps hWalk)
    (signedWalk_steps hWalk') hWalk hWalk' (signedTrace_faithful 0) (signedTrace_faithful 1)
    hFree (signedTrace_authenticated 0) (signedTrace_authenticated 1)).2.2⟩

end Devices

end SoftwarePrototypes.Fsbl
