import Aivcs.CargoRegistry.Routes

/-!
# CargoRegistry.Framing — the body of a publish request and the keys made of it

The lengths in a body and the name in its metadata come from the client.

* `parsePublishIndexed` is `parse_publish` with every index, slice and addition checked; a panic is `none`.
  `parsePublishIndexed_eq` — none happens;
* `parsePublish_eq_some_iff` — what is accepted is exactly a `Framed` body;
* `indexKey_isSome_iff` — `index_key` cuts the name at bytes, and panics inside a character;
* `publishTotal_iff` — a publish is total for a body exactly when no name framed by it is cut in two.
-/

namespace Aivcs
namespace CargoRegistry

open Aivcs.Lib

/-! ## Reading with checked indices -/

/-- `+` and `checked_add` on `usize`: none is an overflow. -/
def usizeAdd? (a b : Nat) : Option Nat :=
  if a + b < 2 ^ 64 then some (a + b) else none

/-- `u32::from_le_bytes([body[i], body[i + 1], body[i + 2], body[i + 3]])`. -/
def u32At? (body : Bytes) (i : Nat) : Option Nat := do
  let a ← body[i]?
  let b ← body[i + 1]?
  let c ← body[i + 2]?
  let d ← body[i + 3]?
  return a.toNat + 256 * b.toNat + 65536 * c.toNat + 16777216 * d.toNat

/-- `&body[a..b]`. -/
def bytesAt? (body : Bytes) (a b : Nat) : Option Bytes :=
  if a ≤ b ∧ b ≤ body.length then some ((body.drop a).take (b - a)) else none

/-- `json_len`, none being a panic. -/
def jsonLenIndexed (body : Bytes) : Option (Option Nat) :=
  if body.length < 4 then some none else (u32At? body 0).map some

/-- `parse_publish`, none being a panic. -/
def parsePublishIndexed (R : Registry) (body : Bytes) : Option (Option (PublishMeta × Bytes)) := do
  match ← jsonLenIndexed body with
  | none => return none
  | some jlen =>
      match usizeAdd? 4 jlen with
      | none => return none
      | some jsonEnd =>
          let crateStart ← usizeAdd? jsonEnd 4
          if body.length < crateStart then
            return none
          else
            match R.decodeMeta (← bytesAt? body 4 jsonEnd) with
            | none => return none
            | some m =>
                let clen ← u32At? body jsonEnd
                match usizeAdd? crateStart clen with
                | none => return none
                | some crateEnd =>
                    if body.length < crateEnd then
                      return none
                    else
                      let crateBytes ← bytesAt? body crateStart crateEnd
                      return some (m, crateBytes)

/-! ## Lengths -/

theorem jsonLen_le32_append {n : Nat} (hn : n < 2 ^ 32) (rest : Bytes) :
    jsonLen (le32 n ++ rest) = some n := by
  simp only [le32, List.cons_append, jsonLen, UInt8.toNat_ofNat', Option.some.injEq]
  omega

/-- A length is read from exactly the bodies that begin with it. -/
theorem jsonLen_eq_some_iff (body : Bytes) (n : Nat) :
    jsonLen body = some n ↔ n < 2 ^ 32 ∧ ∃ rest, body = le32 n ++ rest := by
  constructor
  · intro h
    match body with
    | a :: b :: c :: d :: rest =>
        have hn : a.toNat + 256 * b.toNat + 65536 * c.toNat + 16777216 * d.toNat = n :=
          Option.some.inj h
        have ha := a.toNat_lt
        have hb := b.toNat_lt
        have hc := c.toNat_lt
        have hd := d.toNat_lt
        refine ⟨by omega, rest, ?_⟩
        have hbyte : ∀ (x : UInt8) (k : Nat), x.toNat = k % 256 → x = UInt8.ofNat k := by
          intro x k hx
          rw [← UInt8.toNat_inj, UInt8.toNat_ofNat', hx]
        rw [le32, List.cons_append, List.cons_append, List.cons_append, List.cons_append,
          List.nil_append, ← hbyte a n (by omega), ← hbyte b (n / 256) (by omega),
          ← hbyte c (n / 65536) (by omega), ← hbyte d (n / 16777216) (by omega)]
  · rintro ⟨hn, rest, rfl⟩
    exact jsonLen_le32_append hn rest

theorem jsonLen_isSome (body : Bytes) : (jsonLen body).isSome = true ↔ 4 ≤ body.length := by
  match body with
  | [] | [_] | [_, _] | [_, _, _] =>
      simp [jsonLen]
  | _ :: _ :: _ :: _ :: _ =>
      simp [jsonLen]

theorem u32At?_eq (body : Bytes) (i : Nat) : u32At? body i = jsonLen (body.drop i) := by
  have hget : ∀ k, body[i + k]? = (body.drop i)[k]? := fun k => List.getElem?_drop.symm
  have hfirst : body[i]? = (body.drop i)[0]? := hget 0
  rw [u32At?, hfirst, hget 1, hget 2, hget 3]
  match body.drop i with
  | [] | [_] | [_, _] | [_, _, _] =>
      rfl
  | _ :: _ :: _ :: _ :: _ =>
      rfl

/-! ## No index is out of bounds -/

theorem jsonLenIndexed_eq (body : Bytes) : jsonLenIndexed body = some (jsonLen body) := by
  by_cases hlen : body.length < 4
  · have hnone : jsonLen body = none := by
      rw [← Option.not_isSome_iff_eq_none, jsonLen_isSome, Nat.not_le]
      exact hlen
    rw [jsonLenIndexed, if_pos hlen, hnone]
  · rcases Option.isSome_iff_exists.mp ((jsonLen_isSome body).mpr (Nat.not_lt.mp hlen)) with ⟨n, hn⟩
    rw [jsonLenIndexed, if_neg hlen, u32At?_eq, List.drop_zero, hn, Option.map_some]

theorem usizeAdd?_eq {a b : Nat} (h : a + b < 2 ^ 64) : usizeAdd? a b = some (a + b) :=
  if_pos h

theorem bytesAt?_eq {body : Bytes} {a n : Nat} (h : a + n ≤ body.length) :
    bytesAt? body a (a + n) = some ((body.drop a).take n) := by
  rw [bytesAt?, if_pos ⟨Nat.le_add_right a n, h⟩, Nat.add_sub_cancel_left]

/-- Every index, slice and addition is in range. -/
theorem parsePublishIndexed_eq (R : Registry) (body : Bytes) :
    parsePublishIndexed R body = some (parsePublish R body) := by
  unfold parsePublishIndexed parsePublish
  rw [jsonLenIndexed_eq]
  cases hjlen : jsonLen body with
  | none =>
      rfl
  | some jlen =>
      have hj : jlen < 2 ^ 32 := ((jsonLen_eq_some_iff body jlen).mp hjlen).1
      have hend : usizeAdd? 4 jlen = some (4 + jlen) := usizeAdd?_eq (by omega)
      have hstart : usizeAdd? (4 + jlen) 4 = some (4 + jlen + 4) := usizeAdd?_eq (by omega)
      simp only [Option.bind_eq_bind, Option.bind_some, hend, hstart]
      by_cases hshort : body.length < 4 + jlen + 4
      · rw [if_pos hshort, if_pos hshort]
        rfl
      rw [if_neg hshort, if_neg hshort, bytesAt?_eq (by omega)]
      simp only [Option.bind_some]
      cases R.decodeMeta ((body.drop 4).take jlen) with
      | none =>
          rfl
      | some m =>
          -- Four bytes are left, so the second length can be read.
          have hfour : 4 ≤ (body.drop (4 + jlen)).length := by
            rw [List.length_drop]
            omega
          rcases Option.isSome_iff_exists.mp ((jsonLen_isSome _).mpr hfour) with ⟨clen, hclen⟩
          have hc : clen < 2 ^ 32 := ((jsonLen_eq_some_iff _ clen).mp hclen).1
          have hcrate : usizeAdd? (4 + jlen + 4) clen = some (4 + jlen + 4 + clen) :=
            usizeAdd?_eq (by omega)
          simp only [u32At?_eq, hclen, Option.bind_some, hcrate]
          by_cases hrest : body.length < 4 + jlen + 4 + clen
          · rw [if_pos hrest, if_pos hrest]
            rfl
          · rw [if_neg hrest, if_neg hrest, bytesAt?_eq (by omega)]
            rfl

/-! ## What is accepted -/

/-- The body is a length, so many bytes of metadata, a second length, so many bytes of an artifact, and
anything. -/
def Framed (R : Registry) (body : Bytes) (m : PublishMeta) (crateBytes : Bytes) : Prop :=
  ∃ json rest, body = publishBody json crateBytes ++ rest ∧ json.length < 2 ^ 32 ∧
    crateBytes.length < 2 ^ 32 ∧ R.decodeMeta json = some m

theorem drop_le32_append (n k : Nat) (rest : Bytes) : (le32 n ++ rest).drop (4 + k) = rest.drop k := by
  rw [Nat.add_comm]
  rfl

theorem length_le32 (n : Nat) : (le32 n).length = 4 := rfl

theorem framed_of_parsePublish {R : Registry} {body : Bytes} {m : PublishMeta} {crateBytes : Bytes}
    (h : parsePublish R body = some (m, crateBytes)) : Framed R body m crateBytes := by
  simp only [parsePublish, Option.bind_eq_bind, Option.bind_eq_some_iff] at h
  rcases h with ⟨jlen, hjlen, h⟩
  rcases (jsonLen_eq_some_iff body jlen).mp hjlen with ⟨hj, tail, rfl⟩
  split at h
  · cases h
  rename_i hlong
  rw [Option.bind_eq_some_iff] at h
  rcases h with ⟨m', hm, h⟩
  rw [Option.bind_eq_some_iff] at h
  rcases h with ⟨clen, hclen, h⟩
  split at h
  · cases h
  rename_i hrest
  rcases (jsonLen_eq_some_iff _ clen).mp hclen with ⟨hc, tail', htail⟩
  cases h
  rw [List.length_append, length_le32] at hlong hrest
  rw [drop_le32_append] at htail
  have hdrop : (le32 jlen ++ tail).drop (4 + jlen + 4) = tail' := by
    rw [Nat.add_assoc, drop_le32_append, ← List.drop_drop, htail]
    exact drop_le32_append clen 0 tail'
  have hlen : tail.length - jlen = 4 + tail'.length := by
    rw [← List.length_drop, htail, List.length_append, length_le32]
  rw [hdrop]
  refine ⟨tail.take jlen, tail'.drop clen, ?_, ?_, ?_, hm⟩
  · rw [publishBody, List.length_take, List.length_take, Nat.min_eq_left (by omega),
      Nat.min_eq_left (by omega), List.append_assoc, List.append_assoc, List.append_assoc,
      List.take_append_drop, ← htail, List.take_append_drop]
  · rw [List.length_take]
    omega
  · rw [List.length_take]
    omega

theorem parsePublish_of_framed {R : Registry} {body : Bytes} {m : PublishMeta} {crateBytes : Bytes}
    (h : Framed R body m crateBytes) : parsePublish R body = some (m, crateBytes) := by
  rcases h with ⟨json, rest, rfl, hj, hc, hm⟩
  have hbody : publishBody json crateBytes ++ rest =
      le32 json.length ++ (json ++ (le32 crateBytes.length ++ (crateBytes ++ rest))) := by
    simp only [publishBody, List.append_assoc]
  have hjson : (le32 json.length ++ (json ++ (le32 crateBytes.length ++ (crateBytes ++ rest)))).drop 4 =
      json ++ (le32 crateBytes.length ++ (crateBytes ++ rest)) := rfl
  have hsecond : ∀ tail, (le32 json.length ++ (json ++ tail)).drop (4 + json.length) = tail := by
    intro tail
    rw [drop_le32_append, List.drop_left]
  have hthird : (le32 json.length ++
      (json ++ (le32 crateBytes.length ++ (crateBytes ++ rest)))).drop (4 + json.length + 4) =
        crateBytes ++ rest := by
    rw [← List.drop_drop, hsecond]
    exact drop_le32_append crateBytes.length 0 _
  rw [hbody, parsePublish, jsonLen_le32_append hj]
  simp only [Option.bind_eq_bind, Option.bind_some, hsecond, hthird, hjson,
    jsonLen_le32_append hc, List.take_left, hm]
  rw [if_neg, if_neg]
  · rfl
  · simp only [List.length_append, length_le32]
    omega
  · simp only [List.length_append, length_le32]
    omega

theorem parsePublish_eq_some_iff (R : Registry) (body : Bytes) (m : PublishMeta) (crateBytes : Bytes) :
    parsePublish R body = some (m, crateBytes) ↔ Framed R body m crateBytes :=
  ⟨framed_of_parsePublish, parsePublish_of_framed⟩

/-! ## The keys -/

/-- `index_key` cuts the name between characters, if it cuts it at all. -/
def KeyBoundaries (name : String) : Prop :=
  ((utf8 name).length = 3 → CharBoundary name 1) ∧
    (4 ≤ (utf8 name).length → CharBoundary name 2 ∧ CharBoundary name 4)

theorem indexKey_isSome_iff (name : String) : (indexKey name).isSome = true ↔ KeyBoundaries name := by
  have hslice : ∀ {a b : Nat}, a < b → b ≤ (utf8 name).length →
      ((slice? (asciiLower name) a b).isSome = true ↔ CharBoundary name a ∧ CharBoundary name b) := by
    intro a b hab hb
    rw [← length_utf8_asciiLower] at hb
    rw [slice?_isSome_iff hab hb, charBoundary_asciiLower, charBoundary_asciiLower]
  have hstart : CharBoundary name 0 := ⟨"", name, by simp, rfl⟩
  rw [indexKey, length_utf8_asciiLower]
  unfold KeyBoundaries
  match h : (utf8 name).length with
  | 0 | 1 | 2 =>
      simp
  | 3 =>
      have hone := hslice (a := 0) (b := 1) (by omega) (by omega)
      simp [Option.isSome_bind, hone, hstart]
  | n + 4 =>
      have htwo := hslice (a := 0) (b := 2) (by omega) (by omega)
      have hfour := hslice (a := 2) (b := 4) (by omega) (by omega)
      cases hfirst : slice? (asciiLower name) 0 2 with
      | none =>
          have hnot : ¬ CharBoundary name 2 := by simpa [hfirst, hstart] using htwo
          simp [hnot]
      | some a =>
          have hcut : CharBoundary name 2 := by simpa [hfirst, hstart] using htwo
          simpa [hcut, Option.isSome_bind] using hfour

/-! ## A publish -/

/-- What a publish owes every body: no index out of bounds, exact framing, and keys for whatever it accepts,
so that no handler panics, whatever the store answers. -/
structure PublishTotal (R : Registry) (body : Bytes) : Prop where
  in_bounds : parsePublishIndexed R body = some (parsePublish R body)
  framing : ∀ m crateBytes, parsePublish R body = some (m, crateBytes) ↔ Framed R body m crateBytes
  keys : ∀ m crateBytes, parsePublish R body = some (m, crateBytes) → (indexKey m.name).isSome = true
  answers : ∀ req : PublishRequest, req.body = body →
    ∀ (σ : Type) (store : (op : StoreOp) → σ → op.Ans × σ) (s : σ),
      ((publish R req).run store s).1 ≠ .panicked

section Handler

variable {σ : Type} (store : (op : StoreOp) → σ → op.Ans × σ)

theorem writeIndex_ne_panicked (R : Registry) (m : PublishMeta) (crateBytes : Bytes) (idxKey : String)
    (existing : Bytes) (s : σ) :
    ((writeIndex R m crateBytes idxKey existing).run store s).1 ≠ .panicked := by
  simp only [writeIndex, Store.put, Proc.bind_eq, Proc.bind_perform, Proc.run_call]
  split <;> simp [storageError, published]

theorem readIndex_ne_panicked (R : Registry) (m : PublishMeta) (crateBytes : Bytes) (idxKey : String)
    (s : σ) : ((readIndex R m crateBytes idxKey).run store s).1 ≠ .panicked := by
  simp only [readIndex, Store.get, Proc.bind_eq, Proc.bind_perform, Proc.run_call]
  split
  · exact writeIndex_ne_panicked store R m crateBytes idxKey _ _
  · exact writeIndex_ne_panicked store R m crateBytes idxKey _ _
  · simp [storageError]

/-- Only the key of the index object can panic. -/
theorem appendRecord_ne_panicked (R : Registry) {m : PublishMeta} (crateBytes : Bytes)
    (h : (indexKey m.name).isSome = true) (s : σ) :
    ((appendRecord R m crateBytes).run store s).1 ≠ .panicked := by
  rcases Option.isSome_iff_exists.mp h with ⟨idxKey, hkey⟩
  rw [appendRecord, hkey]
  exact readIndex_ne_panicked store R m crateBytes idxKey s

theorem uploadArtifact_ne_panicked (R : Registry) {m : PublishMeta} (crateBytes : Bytes)
    (h : (indexKey m.name).isSome = true) (s : σ) :
    ((uploadArtifact R m crateBytes).run store s).1 ≠ .panicked := by
  simp only [uploadArtifact, Store.put, Proc.bind_eq, Proc.bind_perform, Proc.run_call]
  split
  · simp [storageError]
  · exact appendRecord_ne_panicked store R crateBytes h _

theorem publishCrate_ne_panicked (R : Registry) {m : PublishMeta} (crateBytes : Bytes)
    (h : (indexKey m.name).isSome = true) (s : σ) :
    ((publishCrate R m crateBytes).run store s).1 ≠ .panicked := by
  simp only [publishCrate, Store.keyExists, Proc.bind_eq, Proc.bind_perform, Proc.run_call]
  split
  · simp [alreadyPublished]
  · exact uploadArtifact_ne_panicked store R crateBytes h _
  · simp [storageError]

theorem publish_ne_panicked (R : Registry) (req : PublishRequest)
    (h : ∀ m crateBytes, parsePublish R req.body = some (m, crateBytes) → (indexKey m.name).isSome = true)
    (s : σ) : ((publish R req).run store s).1 ≠ .panicked := by
  unfold publish
  cases guard R req with
  | some r =>
      simp
  | none =>
      cases hparse : parsePublish R req.body with
      | none =>
          simp
      | some p =>
          exact publishCrate_ne_panicked store R p.2 (h p.1 p.2 hparse) s

end Handler

/-- A publish is total for a body exactly when the name in it, if there is one, is not cut inside a
character. -/
theorem publishTotal_iff (R : Registry) (body : Bytes) :
    PublishTotal R body ↔ ∀ m crateBytes, Framed R body m crateBytes → KeyBoundaries m.name := by
  constructor
  · intro h m crateBytes hframed
    exact (indexKey_isSome_iff m.name).mp (h.keys m crateBytes ((h.framing m crateBytes).mpr hframed))
  · intro h
    have hkeys : ∀ m crateBytes, parsePublish R body = some (m, crateBytes) →
        (indexKey m.name).isSome = true := by
      intro m crateBytes hparse
      exact (indexKey_isSome_iff m.name).mpr
        (h m crateBytes ((parsePublish_eq_some_iff R body m crateBytes).mp hparse))
    refine ⟨parsePublishIndexed_eq R body, parsePublish_eq_some_iff R body, hkeys, ?_⟩
    rintro req rfl σ store s
    exact publish_ne_panicked store R req hkeys s

/-! ## A name that is cut -/

/-- The second byte of this name is the first of two for `é`. -/
def accentedMeta : PublishMeta :=
  { demoMeta "0.1.0" with name := "aébc" }

def accentedJson : Bytes :=
  utf8 "\x7b\"name\":\"aébc\",\"vers\":\"0.1.0\"\x7d"

def accentedRegistry : Registry :=
  { demoRegistry with decodeMeta := fun bs => if bs = accentedJson then some accentedMeta else none }

def accentedRequest : PublishRequest :=
  { demoRequest "0.1.0" "x" with body := publishBody accentedJson (utf8 "x") }

/-- The request panics when the artifact is in the store and no record of it is. -/
theorem not_publishTotal_accented :
    ¬ PublishTotal accentedRegistry accentedRequest.body ∧
      ∃ s, (publish accentedRegistry accentedRequest).run exec ∅ = (.panicked, s) ∧
        s (.crates, "aébc/0.1.0") = some (utf8 "x") ∧ ∀ key, s (.index, key) = none := by
  have hparse : parsePublish accentedRegistry accentedRequest.body = some (accentedMeta, utf8 "x") := by
    decide +kernel
  have hkey : indexKey "aébc" = none := by
    decide +kernel
  have hcrate : crateKey "aébc" "0.1.0" = "aébc/0.1.0" := by
    decide +kernel
  refine ⟨fun h => ?_, Map.insert ∅ (.crates, "aébc/0.1.0") (utf8 "x"), ?_, ?_, ?_⟩
  · have hsome := h.keys _ _ hparse
    rw [accentedMeta, hkey] at hsome
    cases hsome
  · have hguard : guard accentedRegistry accentedRequest = none := rfl
    have hname : accentedMeta.name = "aébc" := rfl
    have hvers : accentedMeta.vers = "0.1.0" := rfl
    simp [publish, hguard, hparse, publishCrate, uploadArtifact, appendRecord, hname, hvers, hkey, hcrate,
      Store.keyExists, Store.put, exec]
  · exact Map.insert_self _ _ _
  · intro key
    simp [Map.insert_apply]

end CargoRegistry
end Aivcs
