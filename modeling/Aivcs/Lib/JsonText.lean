import Aivcs.Lib.Json
import Aivcs.Lib.JsonDoc

/-!
# JsonText — the compact text of a document

`render` writes a `Doc` without white space, with its members in the order they are in and its numbers in
the way `num` writes them.  The text is uniquely decodable: `Decodes` says so of one document with anything
after it that may follow a value, and is proved by induction on documents.

* `render_injective` — when the texts of numbers are made of the bytes of numbers and tell numbers apart,
  the text of a document determines it.
-/

namespace Aivcs
namespace Lib
namespace Doc

variable {N : Type}

/-! ## Writing -/

variable (num : N → Bytes)

mutual

/-- The compact text, with numbers written by `num`. -/
def render : Doc N → Bytes
  | .null => [110, 117, 108, 108]
  | .bool true => [116, 114, 117, 101]
  | .bool false => [102, 97, 108, 115, 101]
  | .num n => num n
  | .str s => Json.renderStr s
  | .arr [] => [91, 93]
  | .arr (x :: xs) => 91 :: (render x ++ renderElems xs)
  | .obj [] => [123, 125]
  | .obj ((k, v) :: ms) => 123 :: (Json.renderStr k ++ 58 :: (render v ++ renderMembers ms))

def renderElems : List (Doc N) → Bytes
  | [] => [93]
  | x :: xs => 44 :: (render x ++ renderElems xs)

def renderMembers : List (String × Doc N) → Bytes
  | [] => [125]
  | (k, v) :: ms => 44 :: (Json.renderStr k ++ 58 :: (render v ++ renderMembers ms))

end

/-- A byte of a number: a digit, a sign, a point or an exponent mark. -/
def isNumByte (b : UInt8) : Bool :=
  isDigit b || b = 43 || b = 45 || b = 46 || b = 69 || b = 101

/-- The texts of numbers are texts of numbers, and tell numbers apart. -/
structure NumberText : Prop where
  ne_nil : ∀ n, num n ≠ []
  mem : ∀ n, ∀ b ∈ num n, isNumByte b = true
  injective : Function.Injective num

variable {num}

theorem isNumByte_ne {b : UInt8} (h : isNumByte b = true) :
    b ≠ 110 ∧ b ≠ 116 ∧ b ≠ 102 ∧ b ≠ 34 ∧ b ≠ 91 ∧ b ≠ 123 ∧ b ≠ 44 ∧ b ≠ 93 ∧ b ≠ 125 := by
  refine ⟨?_, ?_, ?_, ?_, ?_, ?_, ?_, ?_, ?_⟩ <;>
    · rintro rfl
      exact absurd h (by decide)

/-! ## Integers -/

/-- Integers are written without a point and without an exponent. -/
theorem isNumByte_of_mem_renderInt {n : Int} {b : UInt8} (hb : b ∈ Json.renderInt n) :
    isNumByte b = true ∧ b ≠ 46 ∧ b ≠ 101 := by
  have hdigit : isDigit b = true ∨ b = 45 := by
    cases n with
    | ofNat n =>
        exact .inl (Json.isDigit_of_mem_digitBytes hb)
    | negSucc n =>
        rcases List.mem_cons.1 hb with hminus | hb
        · exact .inr hminus
        · exact .inl (Json.isDigit_of_mem_digitBytes hb)
  rcases hdigit with hdigit | rfl
  · refine ⟨by simp [isNumByte, hdigit], ?_, ?_⟩
    · rintro rfl
      exact absurd hdigit (by decide)
    · rintro rfl
      exact absurd hdigit (by decide)
  · decide

theorem renderInt_ne_nil (n : Int) : Json.renderInt n ≠ [] := by
  cases n with
  | ofNat n =>
      exact digitBytes_ne_nil n
  | negSucc n =>
      exact List.cons_ne_nil _ _

theorem renderInt_injective : Function.Injective Json.renderInt := by
  intro n n' h
  have hnum : Json.num n = Json.num n' := Json.render_injective (by rw [Json.render, Json.render, h])
  exact Json.num.inj hnum

/-! ## Unique decoding -/

/-- Two texts of numbers before a delimiter end at the same place. -/
theorem num_append_inj (hnum : NumberText num) {n n' : N} {r r' : Bytes} (hr : Json.Delimited r)
    (hr' : Json.Delimited r') (h : num n ++ r = num n' ++ r') : n = n' ∧ r = r' := by
  -- A delimiter is no byte of a number: the number is the longest run of such bytes.
  have hstop : ∀ {r : Bytes}, Json.Delimited r → r.takeWhile isNumByte = [] := by
    intro r hr
    cases r with
    | nil =>
        rfl
    | cons b r =>
        have hb := hr b (by simp)
        have hno : isNumByte b = false := by
          rcases hb with rfl | rfl | rfl <;> decide
        simp [hno]
  have htake : ∀ {n : N} {r : Bytes}, Json.Delimited r → (num n ++ r).takeWhile isNumByte = num n := by
    intro n r hr
    rw [List.takeWhile_append_of_pos (hnum.mem n), hstop hr, List.append_nil]
  have hsame : num n = num n' := by
    calc
      num n = (num n ++ r).takeWhile isNumByte := (htake hr).symm
      _ = (num n' ++ r').takeWhile isNumByte := by rw [h]
      _ = num n' := htake hr'
  exact ⟨hnum.injective hsame, List.append_cancel_left (hsame ▸ h)⟩

theorem renderStr_append_inj {s s' : String} {r r' : Bytes}
    (h : Json.renderStr s ++ r = Json.renderStr s' ++ r') : s = s' ∧ r = r' := by
  have htail : (utf8 s).flatMap Json.escapeByte ++ 34 :: r =
      (utf8 s').flatMap Json.escapeByte ++ 34 :: r' := by
    simpa [Json.renderStr] using h
  have hparse := congrArg Json.parseText htail
  rw [Json.parseText_escaped, Json.parseText_escaped] at hparse
  exact Prod.mk.inj (Option.some.inj hparse)

/-- Which kind of document a text starts. -/
def leadByte (b : UInt8) : Nat :=
  if b = 110 then 0 else if b = 116 then 1 else if b = 102 then 2 else if b = 34 then 3
  else if b = 91 then 4 else if b = 123 then 5 else 6

def lead : Doc N → Nat
  | .null => 0
  | .bool true => 1
  | .bool false => 2
  | .str _ => 3
  | .arr _ => 4
  | .obj _ => 5
  | .num _ => 6

theorem render_head (hnum : NumberText num) (d : Doc N) :
    ∃ b t, render num d = b :: t ∧ leadByte b = lead d ∧ b ≠ 93 := by
  cases d with
  | null =>
      exact ⟨_, _, by rw [render], rfl, by decide⟩
  | bool b =>
      cases b with
      | true =>
          exact ⟨_, _, by rw [render], rfl, by decide⟩
      | false =>
          exact ⟨_, _, by rw [render], rfl, by decide⟩
  | num n =>
      rcases List.exists_cons_of_ne_nil (hnum.ne_nil n) with ⟨b, t, hbt⟩
      have hb := isNumByte_ne (hnum.mem n b (by simp [hbt]))
      exact ⟨b, t, by rw [render, hbt], by simp [leadByte, lead, hb], hb.2.2.2.2.2.2.2.1⟩
  | str s =>
      exact ⟨_, _, by rw [render, Json.renderStr], rfl, by decide⟩
  | arr xs =>
      cases xs with
      | nil =>
          exact ⟨_, _, by rw [render], rfl, by decide⟩
      | cons x xs =>
          exact ⟨_, _, by rw [render], rfl, by decide⟩
  | obj ms =>
      cases ms with
      | nil =>
          exact ⟨_, _, by rw [render], rfl, by decide⟩
      | cons m ms =>
          exact ⟨_, _, by rw [render], rfl, by decide⟩

/-- Equal texts start documents of one kind. -/
theorem lead_eq (hnum : NumberText num) {d e : Doc N} {r r' : Bytes}
    (h : render num d ++ r = render num e ++ r') : lead d = lead e := by
  rcases render_head hnum d with ⟨b, t, hd, hb, _⟩
  rcases render_head hnum e with ⟨b', t', he, hb', _⟩
  rw [hd, he, List.cons_append, List.cons_append] at h
  rw [← hb, ← hb', (List.cons.inj h).1]

theorem delimited_renderElems (xs : List (Doc N)) (r : Bytes) :
    Json.Delimited (renderElems num xs ++ r) := by
  cases xs with
  | nil =>
      rw [renderElems]
      exact Json.Delimited.cons (by decide) _
  | cons x xs =>
      rw [renderElems]
      exact Json.Delimited.cons (by decide) _

theorem delimited_renderMembers (ms : List (String × Doc N)) (r : Bytes) :
    Json.Delimited (renderMembers num ms ++ r) := by
  cases ms with
  | nil =>
      rw [renderMembers]
      exact Json.Delimited.cons (by decide) _
  | cons m ms =>
      rw [renderMembers]
      exact Json.Delimited.cons (by decide) _

/-- The text of the document, before a delimiter, is the text of no other. -/
def Decodes (num : N → Bytes) (d : Doc N) : Prop :=
  ∀ (e : Doc N) (r r' : Bytes), Json.Delimited r → Json.Delimited r' →
    render num d ++ r = render num e ++ r' → d = e ∧ r = r'

theorem renderElems_append_inj {xs : List (Doc N)} (hxs : ∀ x ∈ xs, Decodes num x)
    (ys : List (Doc N)) (r r' : Bytes) (h : renderElems num xs ++ r = renderElems num ys ++ r') :
    xs = ys ∧ r = r' := by
  induction xs generalizing ys with
  | nil =>
      cases ys with
      | nil =>
          exact ⟨rfl, by simpa [renderElems] using h⟩
      | cons y ys =>
          simp [renderElems] at h
  | cons x xs ih =>
      cases ys with
      | nil =>
          simp [renderElems] at h
      | cons y ys =>
          have hrest : render num x ++ (renderElems num xs ++ r) =
              render num y ++ (renderElems num ys ++ r') := by
            simpa [renderElems] using h
          rcases hxs x List.mem_cons_self y _ _ (delimited_renderElems xs r)
            (delimited_renderElems ys r') hrest with ⟨rfl, htail⟩
          rcases ih (fun z hz => hxs z (List.mem_cons_of_mem x hz)) ys htail with ⟨rfl, hr⟩
          exact ⟨rfl, hr⟩

/-- One member and what follows it. -/
theorem member_append_inj {k k' : String} {v v' : Doc N} (hv : Decodes num v)
    {ms ms' : List (String × Doc N)} {r r' : Bytes}
    (h : Json.renderStr k ++ 58 :: (render num v ++ (renderMembers num ms ++ r)) =
      Json.renderStr k' ++ 58 :: (render num v' ++ (renderMembers num ms' ++ r'))) :
    (k, v) = (k', v') ∧ renderMembers num ms ++ r = renderMembers num ms' ++ r' := by
  rcases renderStr_append_inj h with ⟨rfl, htail⟩
  rcases hv v' _ _ (delimited_renderMembers ms r) (delimited_renderMembers ms' r')
    (List.cons.inj htail).2 with ⟨rfl, hrest⟩
  exact ⟨rfl, hrest⟩

theorem renderMembers_append_inj {ms : List (String × Doc N)} (hms : ∀ m ∈ ms, Decodes num m.2)
    (ms' : List (String × Doc N)) (r r' : Bytes)
    (h : renderMembers num ms ++ r = renderMembers num ms' ++ r') : ms = ms' ∧ r = r' := by
  induction ms generalizing ms' with
  | nil =>
      cases ms' with
      | nil =>
          exact ⟨rfl, by simpa [renderMembers] using h⟩
      | cons m' ms' =>
          simp [renderMembers] at h
  | cons m ms ih =>
      cases ms' with
      | nil =>
          simp [renderMembers] at h
      | cons m' ms' =>
          rcases member_append_inj (hms m List.mem_cons_self)
            (by simpa [renderMembers] using h) with ⟨hm, hrest⟩
          obtain rfl : m = m' := hm
          rcases ih (fun z hz => hms z (List.mem_cons_of_mem m hz)) ms' hrest with ⟨rfl, hr⟩
          exact ⟨rfl, hr⟩

theorem decodes_arr (hnum : NumberText num) {xs : List (Doc N)}
    (ih : ∀ x ∈ xs, Decodes num x) : Decodes num (.arr xs) := by
  intro e r r' hr hr' h
  have hlead := lead_eq hnum h
  cases e with
  | arr ys =>
      cases xs with
      | nil =>
          cases ys with
          | nil =>
              exact ⟨rfl, by simpa [render] using h⟩
          | cons y ys =>
              -- No element starts with the bracket that closes the empty array.
              rcases render_head hnum y with ⟨b, t, hy, _, hb⟩
              simp [render, hy, Ne.symm hb] at h
      | cons x xs =>
          cases ys with
          | nil =>
              rcases render_head hnum x with ⟨b, t, hx, _, hb⟩
              simp [render, hx, hb] at h
          | cons y ys =>
              have hall := renderElems_append_inj ih (y :: ys) r r' (by
                simpa [render, renderElems] using h)
              exact ⟨by rw [hall.1], hall.2⟩
  | bool b =>
      cases b <;> simp [lead] at hlead
  | null | num | str | obj =>
      simp [lead] at hlead

theorem decodes_obj (hnum : NumberText num) {ms : List (String × Doc N)}
    (ih : ∀ m ∈ ms, Decodes num m.2) : Decodes num (.obj ms) := by
  intro e r r' hr hr' h
  have hlead := lead_eq hnum h
  cases e with
  | obj ms' =>
      cases ms with
      | nil =>
          cases ms' with
          | nil =>
              exact ⟨rfl, by simpa [render] using h⟩
          | cons m' ms' =>
              simp [render, Json.renderStr] at h
      | cons m ms =>
          cases ms' with
          | nil =>
              simp [render, Json.renderStr] at h
          | cons m' ms' =>
              have hall := renderMembers_append_inj ih (m' :: ms') r r' (by
                simpa [render, renderMembers] using h)
              exact ⟨by rw [hall.1], hall.2⟩
  | bool b =>
      cases b <;> simp [lead] at hlead
  | null | num | str | arr =>
      simp [lead] at hlead

theorem decodes (hnum : NumberText num) (d : Doc N) : Decodes num d := by
  induction d using induct with
  | null =>
      intro e r r' _ _ h
      have hlead := lead_eq hnum h
      cases e with
      | null =>
          exact ⟨rfl, by simpa [render] using h⟩
      | bool b =>
          cases b <;> simp [lead] at hlead
      | num | str | arr | obj =>
          simp [lead] at hlead
  | bool b =>
      intro e r r' _ _ h
      have hlead := lead_eq hnum h
      cases e with
      | bool b' =>
          cases b <;> cases b' <;> simp_all [lead, render]
      | null | num | str | arr | obj =>
          cases b <;> simp [lead] at hlead
  | num n =>
      intro e r r' hr hr' h
      have hlead := lead_eq hnum h
      cases e with
      | num n' =>
          rw [render, render] at h
          rcases num_append_inj hnum hr hr' h with ⟨rfl, hrest⟩
          exact ⟨rfl, hrest⟩
      | bool b =>
          cases b <;> simp [lead] at hlead
      | null | str | arr | obj =>
          simp [lead] at hlead
  | str s =>
      intro e r r' _ _ h
      have hlead := lead_eq hnum h
      cases e with
      | str s' =>
          rw [render, render] at h
          rcases renderStr_append_inj h with ⟨rfl, hrest⟩
          exact ⟨rfl, hrest⟩
      | bool b =>
          cases b <;> simp [lead] at hlead
      | null | num | arr | obj =>
          simp [lead] at hlead
  | arr xs ih =>
      exact decodes_arr hnum ih
  | obj ms ih =>
      exact decodes_obj hnum ih

theorem render_injective (hnum : NumberText num) : Function.Injective (render num) := by
  intro d e h
  exact (decodes hnum d e [] [] Json.Delimited.nil Json.Delimited.nil (by rw [h])).1

end Doc
end Lib
end Aivcs
