import Aivcs.Forge.Source

/-!
# Forge.SourceRoundTrip — the archive of a commit decodes to the commit's tree

Headers first: the fields `ustar_header` writes do not overlap and each is read back by the USTAR
reader.  Then paths: what `ustar_split` splits, the reader joins.  Then one chunk, and by induction
over the entries the whole archive.
-/

namespace Aivcs
namespace Forge

open Aivcs.Lib

/-! ## Headers -/

/-- The mode a manifest entry is archived with. -/
def archiveMode (executable : Bool) : Nat :=
  if executable then 0o755 else 0o644

/-- The fields of a header other than its checksum, in the order they are written. -/
def headerFields (pre name : Bytes) (size : Nat) (executable : Bool) : List (Nat × Bytes) :=
  [(0, name), (345, pre), (100, padded 8 7 (archiveMode executable) ++ [0]),
    (108, [48, 48, 48, 48, 48, 48, 48, 0]), (116, [48, 48, 48, 48, 48, 48, 48, 0]),
    (124, padded 8 11 size ++ [0]), (136, [48, 48, 48, 48, 48, 48, 48, 48, 48, 48, 48, 0]),
    (156, [48]), (257, Ustar.magic), (263, [48, 48])]

/-- The header before the checksum is put in. -/
def headerBase (pre name : Bytes) (size : Nat) (executable : Bool) : Bytes :=
  Ustar.patchAll (List.replicate 512 0) (headerFields pre name size executable)

/-- The checksum field of a header. -/
def checksumField (pre name : Bytes) (size : Nat) (executable : Bool) : Bytes :=
  padded 8 6 (Ustar.checksum (headerBase pre name size executable)) ++ [0, 32]

section Header

variable {pre name : Bytes} {size : Nat} (executable : Bool)

theorem length_modeField : (padded 8 7 (archiveMode executable) ++ [0]).length = 8 := by
  have hlt : archiveMode executable < 8 ^ 7 := by
    cases executable <;> decide
  rw [List.length_append, length_padded (by omega) (by omega) hlt]
  rfl

theorem length_sizeField (hsize : size < 8 ^ 11) : (padded 8 11 size ++ [0]).length = 12 := by
  rw [List.length_append, length_padded (by omega) (by omega) hsize]
  rfl

/-- A size of 64 bits may run over its field, but not over the end of the header. -/
theorem headerFields_fit (hname : name.length ≤ 100) (hpre : pre.length ≤ 155)
    (hsize : size < 2 ^ 64) : Ustar.Fits (headerFields pre name size executable) 512 := by
  have hmode := length_modeField executable
  have hsz : (padded 8 11 size).length ≤ 22 :=
    length_padded_le (by omega) (by omega) (by omega) (by omega)
  unfold headerFields Ustar.Fits
  simp only [List.forall_mem_cons, List.length_cons, List.length_nil, hmode, List.length_append,
    Ustar.magic]
  simp
  omega

theorem length_headerBase (hname : name.length ≤ 100) (hpre : pre.length ≤ 155)
    (hsize : size < 2 ^ 64) : (headerBase pre name size executable).length = 512 := by
  have hzero : (List.replicate 512 (0 : UInt8)).length = 512 := List.length_replicate
  unfold headerBase
  rw [Ustar.length_patchAll (by rw [hzero]; exact headerFields_fit executable hname hpre hsize),
    hzero]

theorem length_checksumField (hname : name.length ≤ 100) (hpre : pre.length ≤ 155)
    (hsize : size < 2 ^ 64) : (checksumField pre name size executable).length = 8 := by
  have hlt := Ustar.checksum_lt (length_headerBase executable hname hpre hsize)
  unfold checksumField
  rw [List.length_append, length_padded (by omega) (by omega) hlt]
  rfl

/-- Writing spaces first and the checksum over them is writing the checksum. -/
theorem ustarHeader_eq (hname : name.length ≤ 100) (hpre : pre.length ≤ 155)
    (hsize : size < 2 ^ 64) :
    ustarHeader pre name size executable =
      Ustar.patch (headerBase pre name size executable) 148
        (checksumField pre name size executable) := by
  have hbase := length_headerBase executable hname hpre hsize
  have hfield := length_checksumField executable hname hpre hsize
  -- The source writes eight spaces, sums, and writes the digits over the spaces; the sum of the
  -- header without the spaces in it is taken as if they were there.
  have hspaces : (List.replicate 8 (32 : UInt8)).length =
      (checksumField pre name size executable).length := by
    rw [hfield, List.length_replicate]
  rw [← Ustar.patch_patch_self (by omega) hspaces]
  rfl

/-- The whole header, checksum included, as one list of fields. -/
theorem ustarHeader_eq_patchAll (hname : name.length ≤ 100) (hpre : pre.length ≤ 155)
    (hsize : size < 2 ^ 64) :
    ustarHeader pre name size executable =
      Ustar.patchAll (List.replicate 512 0)
        (headerFields pre name size executable ++
          [(148, checksumField pre name size executable)]) := by
  rw [ustarHeader_eq executable hname hpre hsize]
  simp only [headerBase, Ustar.patchAll, List.foldl_append, List.foldl_cons, List.foldl_nil]

theorem allFields_fit (hname : name.length ≤ 100) (hpre : pre.length ≤ 155)
    (hsize : size < 2 ^ 64) :
    Ustar.Fits (headerFields pre name size executable ++
      [(148, checksumField pre name size executable)]) 512 := by
  intro p hp
  rcases List.mem_append.1 hp with hp | hp
  · exact headerFields_fit executable hname hpre hsize p hp
  · have hfield := length_checksumField executable hname hpre hsize
    rw [List.mem_singleton.1 hp]
    show 148 + (checksumField pre name size executable).length ≤ 512
    omega

/-- The fields do not overlap; name and prefix may fill theirs. -/
theorem allFields_disjoint (hname : name.length ≤ 100) (hpre : pre.length ≤ 155)
    (hsize : size < 8 ^ 11) :
    (headerFields pre name size executable ++
      [(148, checksumField pre name size executable)]).Pairwise Ustar.Apart := by
  have hword : size < 2 ^ 64 := hsize.trans (by norm_num)
  have hmode := length_modeField executable
  have hsz := length_sizeField hsize
  have hfield := length_checksumField executable hname hpre hword
  unfold headerFields
  simp only [List.cons_append, List.nil_append, List.pairwise_cons, List.forall_mem_cons,
    Ustar.Apart, List.length_cons, List.length_nil, hmode, hsz, hfield, Ustar.magic]
  simp
  omega

/-- The name field: the name, then zeros to its end. -/
theorem field_name (hname : name.length ≤ 100) (hpre : pre.length ≤ 155) (hsize : size < 8 ^ 11) :
    Ustar.field (ustarHeader pre name size executable) 0 100 =
      name ++ List.replicate (100 - name.length) 0 := by
  have hword : size < 2 ^ 64 := hsize.trans (by norm_num)
  -- Nothing is written before the name, and nothing after it reaches into its field.
  have hbefore : Ustar.Clear [] 0 100 := by
    simp [Ustar.Clear]
  have hafter : Ustar.Clear ((headerFields pre name size executable).drop 1 ++
      [(148, checksumField pre name size executable)]) 0 100 := by
    unfold headerFields Ustar.Clear
    simp only [List.drop_succ_cons, List.drop_zero, List.cons_append, List.nil_append,
      List.forall_mem_cons]
    simp
  rw [ustarHeader_eq_patchAll executable hname hpre hword]
  exact Ustar.field_patchAll_zeros rfl (allFields_fit executable hname hpre hword) hname (by omega)
    hbefore hafter

/-- The prefix field: the prefix, then zeros to its end. -/
theorem field_pre (hname : name.length ≤ 100) (hpre : pre.length ≤ 155) (hsize : size < 8 ^ 11) :
    Ustar.field (ustarHeader pre name size executable) 345 155 =
      pre ++ List.replicate (155 - pre.length) 0 := by
  have hword : size < 2 ^ 64 := hsize.trans (by norm_num)
  have hmode := length_modeField executable
  have hsz := length_sizeField hsize
  have hfield := length_checksumField executable hname hpre hword
  -- Only the name is written before the prefix, and it ends long before it.
  have hbefore : Ustar.Clear [(0, name)] 345 155 := by
    simp [Ustar.Clear]
    omega
  have hafter : Ustar.Clear ((headerFields pre name size executable).drop 2 ++
      [(148, checksumField pre name size executable)]) 345 155 := by
    unfold headerFields Ustar.Clear
    simp only [List.drop_succ_cons, List.drop_zero, List.cons_append, List.nil_append,
      List.forall_mem_cons, hmode, hsz, hfield]
    simp [Ustar.magic]
  rw [ustarHeader_eq_patchAll executable hname hpre hword]
  exact Ustar.field_patchAll_zeros rfl (allFields_fit executable hname hpre hword) hpre (by omega)
    hbefore hafter

/-- Every other field is read back as it was written. -/
theorem field_of_mem (hname : name.length ≤ 100) (hpre : pre.length ≤ 155) (hsize : size < 8 ^ 11)
    {off len : Nat} {src : Bytes}
    (hmem : (off, src) ∈ headerFields pre name size executable ++
      [(148, checksumField pre name size executable)]) (hlen : src.length = len) :
    Ustar.field (ustarHeader pre name size executable) off len = src := by
  have hword : size < 2 ^ 64 := hsize.trans (by norm_num)
  have hfits := allFields_fit executable hname hpre hword
  rw [← show (List.replicate 512 (0 : UInt8)).length = 512 from List.length_replicate] at hfits
  rw [ustarHeader_eq_patchAll executable hname hpre hword]
  exact Ustar.field_patchAll_of_mem hfits (allFields_disjoint executable hname hpre hsize) hmem hlen

/-- The reader accepts a header whose texts have no NUL byte and reads back what went in. -/
theorem readHeader_ustarHeader (hname : name.length ≤ 100) (hpre : pre.length ≤ 155)
    (hsize : size < 8 ^ 11) (hname0 : (0 : UInt8) ∉ name) (hpre0 : (0 : UInt8) ∉ pre) :
    Ustar.readHeader (ustarHeader pre name size executable) =
      some { path := if pre = [] then name else pre ++ 47 :: name
             mode := archiveMode executable
             size := size } := by
  have hword : size < 2 ^ 64 := hsize.trans (by norm_num)
  have hbase := length_headerBase executable hname hpre hword
  have hfield := length_checksumField executable hname hpre hword
  -- Every field is read back as it was written.
  have hmodeF := field_of_mem executable hname hpre hsize
    (show (100, padded 8 7 (archiveMode executable) ++ [0]) ∈ _ by simp [headerFields])
    (length_modeField executable)
  have hsizeF := field_of_mem executable hname hpre hsize
    (show (124, padded 8 11 size ++ [0]) ∈ _ by simp [headerFields]) (length_sizeField hsize)
  have hsumF := field_of_mem executable hname hpre hsize
    (show (148, checksumField pre name size executable) ∈ _ by simp) hfield
  have hmagicF : Ustar.field (ustarHeader pre name size executable) 257 6 = Ustar.magic :=
    field_of_mem executable hname hpre hsize (by simp [headerFields]) rfl
  have htypeF : Ustar.field (ustarHeader pre name size executable) 156 1 = [48] :=
    field_of_mem executable hname hpre hsize (by simp [headerFields]) rfl
  -- The reader sums with spaces in the checksum field, whatever the header has there.
  have hcheck : Ustar.checksum (ustarHeader pre name size executable) =
      Ustar.checksum (headerBase pre name size executable) := by
    rw [ustarHeader_eq executable hname hpre hword, Ustar.checksum_patch hbase hfield]
  have hsum : Ustar.octal? (checksumField pre name size executable) =
      some (Ustar.checksum (headerBase pre name size executable)) :=
    Ustar.octal?_padded 6 _ _ rfl
  unfold Ustar.readHeader
  rw [hmodeF, hsizeF, hsumF, hmagicF, htypeF, hcheck, hsum, Ustar.octal?_padded 7 _ _ rfl,
    Ustar.octal?_padded 11 _ _ rfl, field_name executable hname hpre hsize,
    field_pre executable hname hpre hsize, Ustar.text_append_zeros hname0,
    Ustar.text_append_zeros hpre0]
  simp

end Header

/-! ## Paths -/

/-- The two halves fit their fields and joined they are the path. -/
theorem ustarSplit_sound {path pre name : Bytes} (h : ustarSplit path = some (pre, name)) :
    name.length ≤ 100 ∧ pre.length ≤ 155 ∧ (if pre = [] then name else pre ++ 47 :: name) = path := by
  unfold ustarSplit at h
  split_ifs at h with hshort hlong
  · obtain ⟨rfl, rfl⟩ := Prod.mk.inj (Option.some.inj h)
    exact ⟨hshort, by simp, by simp⟩
  · rcases Option.map_eq_some_iff.1 h with ⟨i, hi, hsplit⟩
    obtain ⟨rfl, rfl⟩ := Prod.mk.inj hsplit
    -- The split is at a slash, which neither half keeps and the reader puts back.
    have hslash : path[i]? = some 47 := by simpa using List.find?_some hi
    have hrange := List.mem_range'_1.1 (List.mem_of_find?_eq_some hi)
    -- Without this the reader would take the name alone for the path.
    have hpre : path.take i ≠ [] := by
      have : (path.take i).length ≠ 0 := by
        rw [List.length_take]
        omega
      simpa using this
    refine ⟨?_, ?_, ?_⟩
    · rw [List.length_drop]
      omega
    · rw [List.length_take]
      omega
    · rw [if_neg hpre]
      rcases List.getElem?_eq_some_iff.1 hslash with ⟨hlt, hget⟩
      conv_rhs => rw [← List.take_append_drop i path, List.drop_eq_getElem_cons hlt, hget]

/-- Both halves are made of bytes of the path. -/
theorem mem_of_mem_ustarSplit {path pre name : Bytes} {b : UInt8}
    (h : ustarSplit path = some (pre, name)) (hb : b ∈ pre ∨ b ∈ name) : b ∈ path := by
  rcases ustarSplit_sound h with ⟨-, -, hjoin⟩
  rw [← hjoin]
  split_ifs with hpre
  · rcases hb with hb | hb
    · simp [hpre] at hb
    · exact hb
  · rcases hb with hb | hb
    · exact List.mem_append_left _ hb
    · exact List.mem_append_right _ (List.mem_cons_of_mem _ hb)

theorem zero_notMem_of_isSafe {path : String} (h : isSafeManifestPath path = true) :
    (0 : UInt8) ∉ utf8 path := by
  intro hmem
  have hcontains : (utf8 path).contains 0 = true := List.contains_iff_mem.2 hmem
  simp [isSafeManifestPath, hmem] at h

/-! ## Preflight -/

/-- What `preflight_source` has checked of the entries it returns. -/
structure Preflighted (D : Deployment) (entries : List ManifestEntry) : Prop where
  distinct : firstDuplicate entries = none
  safe : ∀ e ∈ entries, isSafeManifestPath e.path = true
  splits : ∀ e ∈ entries, (ustarSplit (utf8 e.path)).isSome = true
  capped : estimatedTarLen entries ≤ D.maxSourceBytes

theorem refuseEntry_eq_none {e : ManifestEntry} (h : refuseEntry e = none) :
    isSafeManifestPath e.path = true ∧ (ustarSplit (utf8 e.path)).isSome = true := by
  unfold refuseEntry at h
  split_ifs at h with hsafe hsplit
  refine ⟨by simpa using hsafe, ?_⟩
  cases hs : ustarSplit (utf8 e.path) with
  | none =>
      simp [hs] at hsplit
  | some p =>
      rfl

theorem preflightSource_ok {D : Deployment} {commit : CommitRecord} {entries : List ManifestEntry}
    (h : preflightSource D commit = .ok entries) :
    entries = sortByPath commit.manifest ∧ Preflighted D entries := by
  unfold preflightSource at h
  dsimp only at h
  split at h
  · cases h
  · -- No duplicate: the next check goes over the entries one by one.
    rename_i hdup
    split at h
    · cases h
    · rename_i hrefuse
      split_ifs at h with hcap
      cases h
      have hentry : ∀ e ∈ sortByPath commit.manifest, refuseEntry e = none :=
        List.findSome?_eq_none_iff.1 hrefuse
      exact ⟨rfl, hdup, fun e he => (refuseEntry_eq_none (hentry e he)).1,
        fun e he => (refuseEntry_eq_none (hentry e he)).2, by omega⟩

/-! ## Sizes -/

theorem le_saturatingAdd_left {a b : Nat} (h : a < 2 ^ 64) : a ≤ saturatingAdd a b := by
  unfold saturatingAdd
  omega

theorem le_saturatingAdd_right {a b : Nat} (h : b < 2 ^ 64) : b ≤ saturatingAdd a b := by
  unfold saturatingAdd
  omega

theorem saturatingAdd_lt (a b : Nat) : saturatingAdd a b < 2 ^ 64 := by
  unfold saturatingAdd
  omega

/-- The step of `estimated_tar_len`: a header, the content, its padding. -/
def addEntry (total : Nat) (e : ManifestEntry) : Nat :=
  saturatingAdd (saturatingAdd (saturatingAdd total 512) e.size.toNat)
    ((512 - e.size.toNat % 512) % 512)

theorem le_addEntry {total : Nat} (h : total < 2 ^ 64) (e : ManifestEntry) :
    total ≤ addEntry total e :=
  (le_saturatingAdd_left h).trans ((le_saturatingAdd_left (saturatingAdd_lt _ _)).trans
    (le_saturatingAdd_left (saturatingAdd_lt _ _)))

theorem size_le_addEntry (total : Nat) (e : ManifestEntry) : e.size.toNat ≤ addEntry total e :=
  (le_saturatingAdd_right e.size.toNat_lt).trans (le_saturatingAdd_left (saturatingAdd_lt _ _))

theorem le_foldl_addEntry (entries : List ManifestEntry) {total : Nat} (h : total < 2 ^ 64) :
    total ≤ entries.foldl addEntry total ∧ entries.foldl addEntry total < 2 ^ 64 := by
  -- The bound on the accumulator goes along: it is what makes the next addition monotone.
  induction entries generalizing total with
  | nil =>
      exact ⟨le_rfl, h⟩
  | cons e entries ih =>
      have hstep : addEntry total e < 2 ^ 64 := saturatingAdd_lt _ _
      rcases ih hstep with ⟨hle, hlt⟩
      exact ⟨(le_addEntry h e).trans hle, hlt⟩

theorem size_le_foldl_addEntry {entries : List ManifestEntry} {e : ManifestEntry} (he : e ∈ entries)
    {total : Nat} (h : total < 2 ^ 64) : e.size.toNat ≤ entries.foldl addEntry total := by
  induction entries generalizing total with
  | nil =>
      cases he
  | cons f entries ih =>
      have hstep : addEntry total f < 2 ^ 64 := saturatingAdd_lt _ _
      rcases List.mem_cons.1 he with rfl | he'
      · exact (size_le_addEntry total e).trans (le_foldl_addEntry entries hstep).1
      · exact ih he' hstep

/-- The estimate never falls below the size of an entry, saturation included. -/
theorem size_le_estimatedTarLen {entries : List ManifestEntry} {e : ManifestEntry}
    (he : e ∈ entries) : e.size.toNat ≤ estimatedTarLen entries :=
  (size_le_foldl_addEntry he (by omega)).trans
    (le_saturatingAdd_left (le_foldl_addEntry entries (by omega)).2)

/-! ## Order -/

theorem sortByPath_perm (manifest : List ManifestEntry) : (sortByPath manifest).Perm manifest :=
  List.perm_insertionSort _ manifest

theorem sortByPath_sorted (manifest : List ManifestEntry) :
    (sortByPath manifest).Pairwise fun a b => utf8 a.path ≤ utf8 b.path := by
  have htotal : Std.Total fun a b : ManifestEntry => utf8 a.path ≤ utf8 b.path :=
    ⟨fun _ _ => List.le_total _ _⟩
  have htrans : IsTrans ManifestEntry fun a b => utf8 a.path ≤ utf8 b.path :=
    ⟨fun _ _ _ => List.le_trans⟩
  exact List.pairwise_insertionSort _ manifest

/-- A sorted list without equal neighbours is strictly increasing. -/
theorem strict_of_firstDuplicate {entries : List ManifestEntry}
    (hsorted : entries.Pairwise fun a b => utf8 a.path ≤ utf8 b.path)
    (hdup : firstDuplicate entries = none) :
    entries.Pairwise fun a b => utf8 a.path < utf8 b.path := by
  induction entries with
  | nil =>
      exact List.Pairwise.nil
  | cons a entries ih =>
      rcases List.pairwise_cons.1 hsorted with ⟨hhead, htail⟩
      -- Only neighbours are compared, so the list is taken apart two at a time.
      cases entries with
      | nil =>
          simp
      | cons b entries =>
          unfold firstDuplicate at hdup
          split_ifs at hdup with hpath
          have hne : utf8 a.path ≠ utf8 b.path := fun h => hpath (utf8_injective h)
          have hab : utf8 a.path < utf8 b.path := Std.lt_of_le_of_ne (hhead b (by simp)) hne
          refine List.pairwise_cons.2 ⟨?_, ih htail hdup⟩
          intro c hc
          -- Further entries are above the second one, which is strictly above the first.
          rcases List.mem_cons.1 hc with rfl | hc'
          · exact hab
          · exact Std.lt_of_lt_of_le hab ((List.pairwise_cons.1 htail).1 c hc')

/-! ## The archive -/

/-- The blob of an entry is stored and is what the entry says it is. -/
def BlobIntact (D : Deployment) (s : InMemoryState) (e : ManifestEntry) : Prop :=
  ∃ bytes, s.cas e.digest = some bytes ∧ bytes.length = e.size.toNat ∧ D.sha256Hex bytes = e.digest

/-- What an archive reader should see of an entry. -/
def archived (s : InMemoryState) (e : ManifestEntry) : Ustar.Entry :=
  { path := utf8 e.path
    mode := archiveMode e.executable
    content := (s.cas e.digest).getD [] }

variable {D : Deployment} {s : InMemoryState}

theorem run_tarEntryChunk {e : ManifestEntry} {bytes pre name : Bytes}
    (hblob : s.cas e.digest = some bytes) (hlen : bytes.length = e.size.toNat)
    (hsha : D.sha256Hex bytes = e.digest) (hsplit : ustarSplit (utf8 e.path) = some (pre, name)) :
    (tarEntryChunk D e).run (InMemoryState.exec D) s =
      (.ok (ustarHeader pre name bytes.length e.executable ++ (bytes ++
        List.replicate (Ustar.padding bytes.length) 0)), s) := by
  simp only [tarEntryChunk, ForgeStore.getBlob, Proc.bind_eq, Proc.bind_perform, Proc.run_call,
    InMemoryState.exec, hblob, hlen, hsha, hsplit, ne_eq, not_true_eq_false, if_false]
  rfl

theorem length_ustarHeader {pre name : Bytes} {size : Nat} (executable : Bool)
    (hname : name.length ≤ 100) (hpre : pre.length ≤ 155) (hsize : size < 2 ^ 64) :
    (ustarHeader pre name size executable).length = 512 := by
  have hbase := length_headerBase executable hname hpre hsize
  have hfield := length_checksumField executable hname hpre hsize
  rw [ustarHeader_eq executable hname hpre hsize, Ustar.length_patch (by omega), hbase]

/-- The body of a list of entries is read back entry by entry. -/
theorem run_sourceBody {entries : List ManifestEntry}
    (hsafe : ∀ e ∈ entries, isSafeManifestPath e.path = true)
    (hsplits : ∀ e ∈ entries, (ustarSplit (utf8 e.path)).isSome = true)
    (hsizes : ∀ e ∈ entries, e.size.toNat < 8 ^ 11)
    (hblobs : ∀ e ∈ entries, BlobIntact D s e) :
    ∃ archive, (sourceBody D entries).run (InMemoryState.exec D) s = (.ok archive, s) ∧
      512 * entries.length ≤ archive.length ∧
      ∀ n, entries.length < n → Ustar.readEntries n archive = some (entries.map (archived s)) := by
  -- The fuel of the reader stays general; the induction only asks that it exceeds the entries left.
  induction entries with
  | nil =>
      refine ⟨List.replicate 1024 0, rfl, Nat.zero_le _, ?_⟩
      intro n hn
      obtain ⟨m, rfl⟩ : ∃ m, n = m + 1 := ⟨n - 1, by simp at hn; omega⟩
      exact Ustar.readEntries_trailer m
  | cons e entries ih =>
      rcases ih (fun f hf => hsafe f (by simp [hf])) (fun f hf => hsplits f (by simp [hf]))
        (fun f hf => hsizes f (by simp [hf])) (fun f hf => hblobs f (by simp [hf])) with
        ⟨rest, hrest, hlenRest, hread⟩
      rcases hblobs e (by simp) with ⟨bytes, hblob, hlen, hsha⟩
      rcases Option.isSome_iff_exists.1 (hsplits e (by simp)) with ⟨⟨pre, name⟩, hsplit⟩
      rcases ustarSplit_sound hsplit with ⟨hname, hpre, hjoin⟩
      -- A text field ends at its first NUL, so the path must have none.
      have hzero := zero_notMem_of_isSafe (hsafe e (by simp))
      have hname0 : (0 : UInt8) ∉ name := fun h => hzero (mem_of_mem_ustarSplit hsplit (Or.inr h))
      have hpre0 : (0 : UInt8) ∉ pre := fun h => hzero (mem_of_mem_ustarSplit hsplit (Or.inl h))
      have hsize : bytes.length < 8 ^ 11 := by
        rw [hlen]
        exact hsizes e (by simp)
      have hhead := readHeader_ustarHeader e.executable hname hpre hsize hname0 hpre0
      have hblock := length_ustarHeader e.executable hname hpre (hsize.trans (by norm_num))
      have hchunk := run_tarEntryChunk hblob hlen hsha hsplit
      -- The archive is the chunk of this entry and the archive of the others.
      refine ⟨ustarHeader pre name bytes.length e.executable ++ (bytes ++
        (List.replicate (Ustar.padding bytes.length) 0 ++ rest)), ?_, ?_, ?_⟩
      · simp only [sourceBody, Proc.bind_eq, Proc.run_bind, hchunk, hrest]
        simp
      · simp only [List.length_append, List.length_cons, hblock]
        omega
      · intro n hn
        obtain ⟨m, rfl⟩ : ∃ m, n = m + 1 := ⟨n - 1, by omega⟩
        have hm : entries.length < m := by
          simp only [List.length_cons] at hn
          omega
        rw [Ustar.readEntries_cons hblock hhead rfl, hread m hm, hjoin]
        simp [archived, hblob]

/-- The archive of every commit that passes the preflight under the default cap, with its blobs
intact, is produced and read back: exactly the files of the manifest, by strictly increasing path. -/
theorem source_archive_round_trip (D : Deployment) (hcap : D.maxSourceBytes = defaultMaxSourceBytes)
    (s : InMemoryState) (commit : CommitRecord) (entries : List ManifestEntry)
    (hpre : preflightSource D commit = .ok entries)
    (hblobs : ∀ e ∈ commit.manifest, BlobIntact D s e) :
    ∃ archive files, ((sourceBody D entries).run (InMemoryState.exec D) s).1 = .ok archive ∧
      Ustar.read archive = some files ∧
      files = (sortByPath commit.manifest).map (archived s) ∧
      files.Perm (commit.manifest.map (archived s)) ∧
      files.Pairwise fun a b => a.path < b.path := by
  rcases preflightSource_ok hpre with ⟨rfl, hok⟩
  have hperm := sortByPath_perm commit.manifest
  -- Under the default cap every size fits the eleven octal digits of its field.
  have hsizes : ∀ e ∈ sortByPath commit.manifest, e.size.toNat < 8 ^ 11 := by
    intro e he
    have hle := (size_le_estimatedTarLen he).trans hok.capped
    rw [hcap] at hle
    exact lt_of_le_of_lt hle (by decide)
  rcases run_sourceBody hok.safe hok.splits hsizes (fun e he => hblobs e (hperm.mem_iff.1 he)) with
    ⟨archive, hrun, hlen, hread⟩
  refine ⟨archive, _, by rw [hrun], hread _ ?_, rfl, hperm.map _, ?_⟩
  · -- The reader counts blocks, and every entry took at least one.
    have hblocks := (Nat.le_div_iff_mul_le (by omega)).2 (Nat.mul_comm 512 _ ▸ hlen)
    omega
  · rw [List.pairwise_map]
    exact strict_of_firstDuplicate (sortByPath_sorted _) hok.distinct

/-- The digests of the two files below. -/
def scriptDigests : List (Bytes × String) :=
  [(utf8 "#!/bin/sh\n", "a8076d3d28d21e02012b20eaf7dbf75409a6277134439025f282e368e3305abf"),
    ([], "e3b0c44298fc1c149afbf4c8996fb92427ae41e4649b934ca495991b7852b855")]

def scriptCommit : CommitRecord :=
  { repo := "demo", commitId := "c1", treeDigest := "t1"
    manifest :=
      [{ path := "bin/run.sh", executable := true, size := 10
         digest := "a8076d3d28d21e02012b20eaf7dbf75409a6277134439025f282e368e3305abf" },
        { path := "a", executable := false, size := 0
          digest := "e3b0c44298fc1c149afbf4c8996fb92427ae41e4649b934ca495991b7852b855" }]
    parents := [], message := "m", author := "a" }

def scriptState : InMemoryState :=
  { InMemoryState.empty with
    cas := fun d =>
      if d = "a8076d3d28d21e02012b20eaf7dbf75409a6277134439025f282e368e3305abf" then
        some (utf8 "#!/bin/sh\n")
      else if d = "e3b0c44298fc1c149afbf4c8996fb92427ae41e4649b934ca495991b7852b855" then
        some []
      else
        none }

/-- An executable script and an empty file. -/
theorem source_archive_of_script :
    ∃ archive files,
      ((sourceBody (.ofTable scriptDigests) (sortByPath scriptCommit.manifest)).run
        (InMemoryState.exec (.ofTable scriptDigests)) scriptState).1 = .ok archive ∧
      Ustar.read archive = some files ∧
      files =
        [{ path := utf8 "a", mode := 0o644, content := [] },
          { path := utf8 "bin/run.sh", mode := 0o755, content := utf8 "#!/bin/sh\n" }] := by
  have hblobs : ∀ e ∈ scriptCommit.manifest, BlobIntact (.ofTable scriptDigests) scriptState e := by
    intro e he
    rcases List.mem_cons.1 he with rfl | he
    · exact ⟨utf8 "#!/bin/sh\n", by decide +kernel, by decide +kernel, by decide +kernel⟩
    · obtain rfl := List.mem_singleton.1 he
      exact ⟨[], by decide +kernel, by decide +kernel, by decide +kernel⟩
  have hpre : preflightSource (.ofTable scriptDigests) scriptCommit =
      .ok (sortByPath scriptCommit.manifest) := by
    decide +kernel
  rcases source_archive_round_trip (.ofTable scriptDigests) rfl scriptState scriptCommit _ hpre hblobs
    with ⟨archive, files, hrun, hread, hfiles, -, -⟩
  refine ⟨archive, files, hrun, hread, hfiles.trans ?_⟩
  decide +kernel

end Forge
end Aivcs
