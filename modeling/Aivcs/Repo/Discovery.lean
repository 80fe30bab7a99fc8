import Aivcs.Lib.JsonSearch
import Aivcs.Repo.JsonField

/-!
# Repo.Discovery — the publications of a discovery document (`aivcs-repo/src/main.rs`)

The document is cut into objects by counting braces, those in strings too, and of an object each field is read
after the first occurrence of its name.

* `read_of_faithful` — when this gives the members of the objects, and for one object when it does not.
-/

namespace Aivcs
namespace Repo

open Aivcs.Lib
open Aivcs.Lib.JsonSyntax

structure DiscoveryPublication where
  serviceId : String
  capability : String
  exposureClass : String
  identity : String
  port : UInt16
  cluster : String
  namespaceName : String
  deriving DecidableEq

def serviceIdKey : List Char :=
  ['s', 'e', 'r', 'v', 'i', 'c', 'e', 'I', 'd']

def capabilityKey : List Char :=
  ['c', 'a', 'p', 'a', 'b', 'i', 'l', 'i', 't', 'y']

def exposureClassKey : List Char :=
  ['e', 'x', 'p', 'o', 's', 'u', 'r', 'e', 'C', 'l', 'a', 's', 's']

def identityKey : List Char :=
  ['i', 'd', 'e', 'n', 't', 'i', 't', 'y']

def portKey : List Char :=
  ['p', 'o', 'r', 't']

def clusterKey : List Char :=
  ['c', 'l', 'u', 's', 't', 'e', 'r']

def namespaceKey : List Char :=
  ['n', 'a', 'm', 'e', 's', 'p', 'a', 'c', 'e']

/-! ## Cutting the document -/

/-- The loop of `split_json_objects`; `start` is the text from the start index on. -/
structure SplitState where
  depth : Nat
  start : Option (List Char)
  objects : List (List Char)

def SplitState.step (s : SplitState) (c : Char) : SplitState :=
  if c = openBrace then
    if s.depth = 0 then { s with depth := 1, start := some [c] }
    else { s with depth := s.depth + 1, start := s.start.map (· ++ [c]) }
  else if c = closeBrace then
    if s.depth = 1 then
      { depth := 0, start := none, objects := s.objects ++ (s.start.map (· ++ [c])).toList }
    else { s with depth := s.depth - 1, start := s.start.map (· ++ [c]) }
  else { s with start := s.start.map (· ++ [c]) }

def splitJsonObjects (arrayBody : List Char) : List (List Char) :=
  (arrayBody.foldl SplitState.step ⟨0, none, []⟩).objects

/-! ## Reading the document -/

/-- The publication of the values that are there, with defaults for the others; none without a `serviceId`. -/
def publicationOf (text : List Char → Option (List Char)) (port : Option UInt16) :
    Option DiscoveryPublication :=
  (text serviceIdKey).map fun serviceId =>
    { serviceId := String.ofList serviceId
      capability := String.ofList ((text capabilityKey).getD [])
      exposureClass := String.ofList ((text exposureClassKey).getD [])
      identity := String.ofList ((text identityKey).getD [])
      port := port.getD 8080
      cluster := String.ofList ((text clusterKey).getD [])
      namespaceName := String.ofList ((text namespaceKey).getD []) }

def parseDiscoveryPublication (object : List Char) : Option DiscoveryPublication :=
  publicationOf (jsonStringField object) (jsonU16Field object portKey)

def parseDiscoveryPublications (body : String) : Except String (List DiscoveryPublication) :=
  let trimmed := trimBoth isWhitespace body.toList
  if ['['] <+: trimmed then .ok ((splitJsonObjects trimmed).filterMap parseDiscoveryPublication)
  else .error "discovery response is not a JSON array"

/-! ## Documents -/

/-- The members whose values are texts. -/
def textKeys : List (List Char) :=
  [serviceIdKey, capabilityKey, exposureClassKey, identityKey, clusterKey, namespaceKey]

/-- An object whose members are of the types a publication needs. -/
structure Entry where
  object : Object
  texts : ∀ k ∈ textKeys, ∀ v, object.field k = some v → ∃ s g, v = [.string s g] ∧ s.Plain
  port : ∀ v, object.field portKey = some v →
    ∃ (n : Number) (g : Gap) (p : UInt16), v = [.literal (.number n) g] ∧ n.value = (p.toNat : ℚ)

namespace Entry

/-- The object's own member. -/
def text? (e : Entry) (k : List Char) : Option (List Char) :=
  match e.object.field k with
  | some [.string s _] => some s.text
  | _ => none

/-- The object's own port. -/
def port? (e : Entry) : Option UInt16 :=
  match e.object.field portKey with
  | some [.literal (.number n) _] => some (UInt16.ofNat n.value.num.toNat)
  | _ => none

/-- The publication the object is. -/
def publication? (e : Entry) : Option DiscoveryPublication :=
  publicationOf e.text? e.port?

/-- The tokens of the object, without the whitespace after it. -/
def tokens (e : Entry) : List Token :=
  { e.object with closeGap := ⟨[], all_isGap_nil⟩ : Object }.tokens

/-- The text that the first occurrence of the key gives: what follows a colon, up to a quote. -/
def firstText (e : Entry) (k : List Char) : Option (List Char) :=
  (stringAfter e.tokens k).map fun s => upTo '"' s.text

/-- The port that the first occurrence gives: a number up to its fraction or exponent. -/
def firstPort (e : Entry) : Option UInt16 :=
  (numberAfter e.tokens portKey).bind fun n => if n.minus then none else parseU16 n.int

/-- The braces in the object's strings, counted with its others, nest between its own two. -/
def BracesNest (e : Entry) : Prop :=
  nests 0 (render e.object.inner) = some 0

/-- The first occurrences of the names give the object's own members: of `serviceId`, and of the others if it
has one. -/
def OwnFirst (e : Entry) : Prop :=
  e.firstText serviceIdKey = e.text? serviceIdKey ∧
    ((e.text? serviceIdKey).isSome = true →
      (∀ k ∈ textKeys, (e.firstText k).getD [] = (e.text? k).getD []) ∧
        e.firstPort.getD 8080 = e.port?.getD 8080)

end Entry

/-- A document that is an array of such objects. -/
structure Catalog where
  gap : Gap
  openGap : Gap
  entries : Items Entry
  closeGap : Gap

namespace Catalog

def items (c : Catalog) : List Token :=
  c.entries.tokens fun e => e.object.tokens

def body (c : Catalog) : String :=
  String.ofList (c.gap ++ render (.mark .openArray c.openGap :: (c.items ++ [.mark .closeArray c.closeGap])))

/-- One publication is returned for each object that has a `serviceId`, with the object's own members. -/
def Read (c : Catalog) : Prop :=
  parseDiscoveryPublications c.body = .ok (c.entries.toList.filterMap Entry.publication?)

end Catalog

/-! ## The values -/

section Values

variable {text text' : List Char → Option (List Char)} {port port' : Option UInt16}

theorem publicationOf_congr (h : ∀ k ∈ textKeys, text k = text' k) :
    publicationOf text port = publicationOf text' port := by
  simp only [textKeys, List.forall_mem_cons] at h
  rcases h with ⟨hid, hcapability, hexposure, hidentity, hcluster, hnamespace, _⟩
  rw [publicationOf, publicationOf, hid, hcapability, hexposure, hidentity, hcluster, hnamespace]

/-- Two publications are the same if the values are, and without a `serviceId` there is none. -/
theorem publicationOf_eq_iff : publicationOf text port = publicationOf text' port' ↔
    text serviceIdKey = text' serviceIdKey ∧ ((text' serviceIdKey).isSome = true →
      (∀ k ∈ textKeys, (text k).getD [] = (text' k).getD []) ∧ port.getD 8080 = port'.getD 8080) := by
  rw [publicationOf, publicationOf]
  cases hid : text serviceIdKey with
  | none =>
      cases text' serviceIdKey with
      | none => simp
      | some own => simp
  | some first =>
      cases hid' : text' serviceIdKey with
      | none => simp
      | some own =>
          simp only [Option.map_some, Option.some.injEq, DiscoveryPublication.mk.injEq, String.ofList_inj, textKeys,
            List.forall_mem_cons, hid, hid', Option.getD_some, Option.isSome_some, forall_const]
          constructor
          · rintro ⟨hfirst, hcapability, hexposure, hidentity, hport, hcluster, hnamespace⟩
            exact ⟨hfirst, ⟨hfirst, hcapability, hexposure, hidentity, hcluster, hnamespace, by simp⟩, hport⟩
          · rintro ⟨hfirst, ⟨_, hcapability, hexposure, hidentity, hcluster, hnamespace, _⟩, hport⟩
            exact ⟨hfirst, hcapability, hexposure, hidentity, hport, hcluster, hnamespace⟩

end Values

/-! ## The cuts -/

section Cuts

variable {d e : Nat} {cs text : List Char} {objects : List (List Char)}

theorem splitJsonObjects_skip (h : NoBrace cs) :
    cs.foldl SplitState.step ⟨0, none, objects⟩ = ⟨0, none, objects⟩ := by
  induction cs with
  | nil =>
      rfl
  | cons c cs ih =>
      rw [NoBrace, List.mem_cons, List.mem_cons, not_or, not_or] at h
      rw [List.foldl_cons, SplitState.step, if_neg (Ne.symm h.1.1), if_neg (Ne.symm h.2.1)]
      exact ih ⟨h.1.2, h.2.2⟩

/-- Within an object all is kept as long as its brace is open. -/
theorem foldl_step_nests (h : nests d cs = some e) :
    cs.foldl SplitState.step ⟨d + 1, some text, objects⟩ = ⟨e + 1, some (text ++ cs), objects⟩ := by
  induction cs generalizing d text with
  | nil =>
      rw [← Option.some.inj h]
      simp
  | cons c cs ih =>
      have hnext : text ++ c :: cs = (text ++ [c]) ++ cs := by simp
      rw [List.foldl_cons, hnext]
      by_cases hopen : c = openBrace
      · rw [hopen, nests_open] at h
        rw [SplitState.step, if_pos hopen, if_neg (Nat.succ_ne_zero d)]
        exact ih h
      · by_cases hclose : c = closeBrace
        · cases d with
          -- The brace that would end the object is not among these characters.
          | zero =>
              rw [hclose, nests_close_zero] at h
              cases h
          | succ d =>
              rw [hclose, nests_close_succ] at h
              rw [SplitState.step, if_neg hopen, if_pos hclose, if_neg (by simp)]
              exact ih h
        · rw [nests_other hopen hclose] at h
          rw [SplitState.step, if_neg hopen, if_neg hclose]
          exact ih h

/-- An object whose braces nest is cut out. -/
theorem foldl_step_object (h : nests 0 cs = some 0) :
    (openBrace :: (cs ++ [closeBrace])).foldl SplitState.step ⟨0, none, objects⟩ =
      ⟨0, none, objects ++ [openBrace :: (cs ++ [closeBrace])]⟩ := by
  have hopen : SplitState.step ⟨0, none, objects⟩ openBrace = ⟨1, some [openBrace], objects⟩ := rfl
  rw [List.foldl_cons, hopen, List.foldl_append, foldl_step_nests h]
  rfl

end Cuts

namespace Entry

variable (e : Entry)

theorem render_tokens : render e.tokens =
    openBrace :: ((e.object.openGap ++ render e.object.inner) ++ [closeBrace]) := by
  rw [tokens, Object.tokens, render_cons, render_append]
  exact congrArg (openBrace :: ·) (List.append_assoc _ _ _).symm

theorem render_object_tokens : render e.object.tokens = render e.tokens ++ e.object.closeGap.1 := by
  rw [render_tokens, Object.tokens, render_cons, render_append, render_cons]
  simp [Token.text, Mark.char, render, openBrace, closeBrace]

theorem foldl_step (h : e.BracesNest) (objects : List (List Char)) :
    (render e.object.tokens).foldl SplitState.step ⟨0, none, objects⟩ =
      ⟨0, none, objects ++ [render e.tokens]⟩ := by
  have hinner : nests 0 (e.object.openGap.1 ++ render e.object.inner) = some 0 := by
    rw [nests_append, (noBrace_gap e.object.openGap).nests, Option.bind_some, h]
  rw [render_object_tokens, List.foldl_append, render_tokens, foldl_step_object hinner,
    splitJsonObjects_skip (noBrace_gap _)]

end Entry

theorem foldl_step_rest {rest : List (Gap × Entry)} (h : ∀ e ∈ rest.map Prod.snd, e.BracesNest)
    (objects : List (List Char)) :
    (render (rest.flatMap fun (g, e) => .mark .comma g :: e.object.tokens)).foldl SplitState.step
        ⟨0, none, objects⟩ = ⟨0, none, objects ++ (rest.map Prod.snd).map fun e => render e.tokens⟩ := by
  induction rest generalizing objects with
  | nil =>
      rw [List.map_nil, List.map_nil, List.append_nil]
      rfl
  | cons ge rest ih =>
      rw [List.map_cons, List.forall_mem_cons] at h
      rw [List.flatMap_cons, render_append, List.foldl_append, render_cons, List.foldl_append,
        splitJsonObjects_skip (noBrace_mark (by decide) (by decide) ge.1), ge.2.foldl_step h.1, ih h.2,
        List.map_cons, List.map_cons, List.append_assoc]
      rfl

/-- The objects are cut out one by one. -/
theorem foldl_step_items {entries : Items Entry} (h : ∀ e ∈ entries.toList, e.BracesNest) :
    (render (entries.tokens fun e => e.object.tokens)).foldl SplitState.step ⟨0, none, []⟩ =
      ⟨0, none, entries.toList.map fun e => render e.tokens⟩ := by
  cases entries with
  | empty =>
      rfl
  | cons first rest =>
      rw [Items.toList, List.forall_mem_cons] at h
      rw [Items.tokens, render_append, List.foldl_append, first.foldl_step h.1, Items.toList, List.map_cons,
        List.nil_append]
      exact foldl_step_rest h.2 [render first.tokens]

namespace Catalog

theorem trimBoth_body (c : Catalog) : trimBoth isWhitespace c.body.toList =
    '[' :: ((c.openGap ++ render c.items) ++ [']']) := by
  have hgap : ∀ g : Gap, ∀ ch ∈ g.1, isWhitespace ch = true := fun g ch hch =>
    isWhitespace_of_isGap (List.all_eq_true.1 g.2 ch hch)
  have hend : trimEnd isWhitespace (']' :: c.closeGap.1) = [']'] := by
    rw [trimEnd, List.reverse_cons, List.dropWhile_append_of_pos fun ch hch =>
      hgap c.closeGap ch (List.mem_reverse.1 hch)]
    rfl
  have htext : c.body.toList =
      c.gap.1 ++ (('[' :: (c.openGap.1 ++ render c.items)) ++ (']' :: c.closeGap.1)) := by
    rw [body, String.toList_ofList, render_cons, render_append, render_cons]
    simp [Token.text, Mark.char, render]
  rw [htext, trimBoth, List.dropWhile_append_of_pos (hgap c.gap), List.cons_append,
    List.dropWhile_cons_of_neg (by decide), ← List.cons_append, trimEnd_append _ (by rw [hend]; decide), hend]
  rfl

/-- The document is cut into its objects. -/
theorem parse_body {c : Catalog} (h : ∀ e ∈ c.entries.toList, e.BracesNest) :
    parseDiscoveryPublications c.body =
      .ok (c.entries.toList.filterMap fun e => parseDiscoveryPublication (render e.tokens)) := by
  have hopen : NoBrace ('[' :: c.openGap.1) :=
    NoBrace.cons (by decide) (by decide) (noBrace_gap c.openGap)
  have hclose : NoBrace [']'] := by
    constructor <;> decide
  have hsplit : splitJsonObjects ('[' :: ((c.openGap.1 ++ render c.items) ++ [']'])) =
      c.entries.toList.map fun e => render e.tokens := by
    rw [splitJsonObjects, List.append_assoc, ← List.cons_append, List.foldl_append,
      splitJsonObjects_skip hopen, List.foldl_append, items, foldl_step_items h, splitJsonObjects_skip hclose]
  rw [parseDiscoveryPublications]
  simp only [trimBoth_body]
  rw [if_pos (List.cons_prefix_cons.2 ⟨rfl, List.nil_prefix⟩), hsplit, List.filterMap_map]
  rfl

end Catalog

namespace Entry

variable (e : Entry)

theorem jsonStringField_tokens {k : List Char} (hk : IsKey k) : jsonStringField (render e.tokens) k = e.firstText k :=
  jsonStringField_render hk (Object.isChain_tokens _) ⟨[], all_isGap_nil⟩

theorem jsonU16Field_tokens : jsonU16Field (render e.tokens) portKey = e.firstPort :=
  jsonU16Field_render ⟨by decide, by decide⟩ (Object.isChain_tokens _) ⟨[], all_isGap_nil⟩

theorem isKey_of_mem {k : List Char} (hk : k ∈ textKeys) : IsKey k := by
  have hall : textKeys.all (fun k => !k.isEmpty && k.all Char.isAlphanum) = true := by decide
  have h := List.all_eq_true.1 hall k hk
  rw [Bool.and_eq_true, Bool.not_eq_true', List.isEmpty_eq_false_iff] at h
  exact ⟨h.1, h.2⟩

theorem parse_tokens : parseDiscoveryPublication (render e.tokens) = publicationOf e.firstText e.firstPort := by
  rw [parseDiscoveryPublication, e.jsonU16Field_tokens]
  exact publicationOf_congr fun k hk => e.jsonStringField_tokens (isKey_of_mem hk)

/-- The object is read as what it is exactly when its own members come first. -/
theorem parse_eq_iff : parseDiscoveryPublication (render e.tokens) = e.publication? ↔ e.OwnFirst := by
  rw [parse_tokens]
  exact publicationOf_eq_iff

end Entry

/-- A document of one object is read as what it is exactly when the object is. -/
theorem Catalog.read_single_iff {c : Catalog} {e : Entry} (hentries : c.entries.toList = [e])
    (hnest : e.BracesNest) : c.Read ↔ e.OwnFirst := by
  have hall : ∀ e' ∈ c.entries.toList, e'.BracesNest := by
    rw [hentries]
    intro e' he'
    rw [List.mem_singleton.1 he']
    exact hnest
  have hone : ∀ f : Entry → Option DiscoveryPublication, [e].filterMap f = (f e).toList := by
    intro f
    cases hf : f e <;> simp [hf]
  rw [Catalog.Read, Catalog.parse_body hall, Except.ok.injEq, hentries, hone, hone, ← e.parse_eq_iff]
  exact ⟨fun h => by simpa using congrArg List.head? h, congrArg _⟩

/-- Discovery documents are read as JSON if the braces in the strings of each object nest, and the first
occurrences of the names give its own members.  A single object is read so only then. -/
theorem read_of_faithful (c : Catalog) :
    ((∀ e ∈ c.entries.toList, e.BracesNest ∧ e.OwnFirst) → c.Read) ∧
      ∀ e, c.entries.toList = [e] → e.BracesNest → (c.Read ↔ e.OwnFirst) := by
  constructor
  · intro h
    rw [Catalog.Read, Catalog.parse_body fun e he => (h e he).1]
    refine congrArg Except.ok (List.filterMap_congr fun e he => ?_)
    exact e.parse_eq_iff.2 (h e he).2
  · intro e hentries hnest
    exact Catalog.read_single_iff hentries hnest

/-! ## Two documents -/

/-- A member that contains an object with a `serviceId` of its own. -/
def upstreamMember : Member :=
  let upstream := Object.compact [.text serviceIdKey ['u', 'p']]
  .compact ['u', 'p', 's', 't', 'r', 'e', 'a', 'm'] upstream.tokens upstream.grammar

/-- The member comes last. -/
def idpEntry : Entry where
  object := .compact [.text serviceIdKey ['i', 'd', 'p'], upstreamMember]
  texts := by
    simp only [textKeys, List.forall_mem_cons]
    refine ⟨?_, nofun, nofun, nofun, nofun, nofun, nofun⟩
    intro v hv
    cases hv
    exact ⟨_, _, rfl, by decide⟩
  port := nofun

/-- The member comes first. -/
def shadowedEntry : Entry where
  object := .compact [upstreamMember, .text serviceIdKey ['i', 'd', 'p']]
  texts := by
    simp only [textKeys, List.forall_mem_cons]
    refine ⟨?_, nofun, nofun, nofun, nofun, nofun, nofun⟩
    intro v hv
    cases hv
    exact ⟨_, _, rfl, by decide⟩
  port := nofun

def catalogOf (e : Entry) : Catalog :=
  ⟨⟨[], all_isGap_nil⟩, ⟨[], all_isGap_nil⟩, .compact [e], ⟨[], all_isGap_nil⟩⟩

theorem read_of_faithful_idp : (catalogOf idpEntry).Read := by
  refine (read_of_faithful (catalogOf idpEntry)).1 fun e he => ?_
  rw [List.mem_singleton.1 he]
  exact ⟨rfl, by decide, fun _ => ⟨by decide, by decide⟩⟩

theorem not_read_shadowed : ¬ (catalogOf shadowedEntry).Read := by
  intro h
  have hnest : shadowedEntry.BracesNest := rfl
  have hown := (Catalog.read_single_iff rfl hnest).1 h
  exact absurd hown.1 (by decide)

end Repo
end Aivcs
