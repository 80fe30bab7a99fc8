import Aivcs.Lib.Ustar
import Aivcs.Forge.Store

/-!
# Forge.Source — serving a commit's tree as a USTAR archive

`get_repo_source` validates a manifest before it streams anything (`preflightSource`), then emits one
`[header | content | padding]` chunk per entry (`tarEntryChunk`) and 1024 zero bytes.  Paths are
handled through their UTF-8 bytes: every split is at an ASCII slash, which is a character boundary.
-/

namespace Aivcs
namespace Forge

open Aivcs.Lib

/-! ## Paths -/

/-- `ustar_split`: `(prefix, name)` with the archived path `prefix + "/" + name`; the leftmost slash
of the window in which both parts fit. -/
def ustarSplit (path : Bytes) : Option (Bytes × Bytes) :=
  if path.length ≤ 100 then
    some ([], path)
  else if path.length > 255 then
    none
  else
    -- The name has at most 100 bytes, the prefix at most 155, and neither is empty.
    let lo := max (path.length - 101) 1
    let hi := min 155 (path.length - 2)
    ((List.range' lo (hi + 1 - lo)).find? fun i => path[i]? = some 47).map fun i =>
      (path.take i, path.drop (i + 1))

/-- `is_safe_manifest_path`. -/
def isSafeManifestPath (path : String) : Bool :=
  !(utf8 path).isEmpty && (utf8 path).head? != some 47 && !(utf8 path).contains 0 &&
    !((utf8 path).splitOn 47).any fun c => c = [46, 46] || c = [46]

/-! ## Sizes -/

/-- `u64::saturating_add`. -/
def saturatingAdd (a b : Nat) : Nat :=
  min (a + b) (2 ^ 64 - 1)

/-- `estimated_tar_len`. -/
def estimatedTarLen (entries : List ManifestEntry) : Nat :=
  saturatingAdd
    (entries.foldl
      (fun total e =>
        saturatingAdd (saturatingAdd (saturatingAdd total 512) e.size.toNat)
          ((512 - e.size.toNat % 512) % 512))
      0)
    1024

/-! ## Preflight -/

/-- The first path that two neighbours share. -/
def firstDuplicate : List ManifestEntry → Option String
  | a :: b :: rest => if a.path = b.path then some a.path else firstDuplicate (b :: rest)
  | _ => none

/-- The refusal of one entry, if its path is unsafe or does not fit a USTAR header. -/
def refuseEntry (e : ManifestEntry) : Option (StatusCode × String) :=
  if !isSafeManifestPath e.path then
    some (.unprocessableEntity, "unsafe path in manifest: " ++ e.path)
  else if (ustarSplit (utf8 e.path)).isNone then
    some (.unprocessableEntity,
      "path exceeds the USTAR limit (a component >100 or the path >255 bytes): " ++ e.path)
  else
    none

/-- `preflight_source`: the entries in the order the archive emits them, or a refusal. -/
def preflightSource (D : Deployment) (commit : CommitRecord) :
    Except (StatusCode × String) (List ManifestEntry) :=
  let entries := sortByPath commit.manifest
  match firstDuplicate entries with
  | some path => .error (.unprocessableEntity, "duplicate path in manifest: " ++ path)
  | none =>
      match entries.findSome? refuseEntry with
      | some refusal => .error refusal
      | none =>
          let tarLen := estimatedTarLen entries
          if tarLen > D.maxSourceBytes then
            .error (.payloadTooLarge,
              "source tar would be " ++ toString tarLen ++ " bytes, over the " ++
                toString D.maxSourceBytes ++ "-byte limit")
          else
            .ok entries

/-! ## The archive -/

/-- `ustar_header`: the fields in the order the source writes them. -/
def ustarHeader (pre name : Bytes) (size : Nat) (executable : Bool) : Bytes :=
  let h := List.replicate 512 0
  let h := Ustar.patch h 0 name
  let h := Ustar.patch h 345 pre
  let h := Ustar.patch h 100 (padded 8 7 (if executable then 0o755 else 0o644) ++ [0])
  let h := Ustar.patch h 108 [48, 48, 48, 48, 48, 48, 48, 0]
  let h := Ustar.patch h 116 [48, 48, 48, 48, 48, 48, 48, 0]
  let h := Ustar.patch h 124 (padded 8 11 size ++ [0])
  let h := Ustar.patch h 136 [48, 48, 48, 48, 48, 48, 48, 48, 48, 48, 48, 0]
  let h := Ustar.patch h 156 [48]
  let h := Ustar.patch h 257 [117, 115, 116, 97, 114, 0]
  let h := Ustar.patch h 263 [48, 48]
  -- The sum is taken while the checksum field holds spaces.
  let h := Ustar.patch h 148 (List.replicate 8 32)
  let sum := (h.map UInt8.toNat).sum
  Ustar.patch h 148 (padded 8 6 sum ++ [0, 32])

/-- `tar_entry_chunk`: one store call, then the chunk or the reason the stream aborts. -/
def tarEntryChunk (D : Deployment) (e : ManifestEntry) : ForgeProc (Except String Bytes) := do
  match ← ForgeStore.getBlob e.digest with
  | .error err => return .error err.toString
  | .ok none => return .error ("blob not in CAS for " ++ e.path ++ ": " ++ e.digest)
  | .ok (some bytes) =>
      if bytes.length ≠ e.size.toNat then
        return .error ("manifest size " ++ toString e.size.toNat ++ " != blob length " ++
          toString bytes.length ++ " for " ++ e.path)
      else if D.sha256Hex bytes ≠ e.digest then
        return .error ("blob digest mismatch for " ++ e.path)
      else
        match ustarSplit (utf8 e.path) with
        | none => return .error ("path exceeds USTAR limit: " ++ e.path)
        | some (pre, name) =>
            return .ok (ustarHeader pre name bytes.length e.executable ++ (bytes ++
              List.replicate ((512 - bytes.length % 512) % 512) 0))

/-- The streamed body: the chunks in order, then two zero blocks; the first failing chunk aborts. -/
def sourceBody (D : Deployment) : List ManifestEntry → ForgeProc (Except String Bytes)
  | [] => return .ok (List.replicate 1024 0)
  | e :: entries => do
      match ← tarEntryChunk D e with
      | .error err => return .error err
      | .ok chunk =>
          match ← sourceBody D entries with
          | .error err => return .error err
          | .ok rest => return .ok (chunk ++ rest)

end Forge
end Aivcs
