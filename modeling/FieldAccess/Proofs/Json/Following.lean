/-
  Reading a text straight into a type, and reading it as a value first.

  1. **Values** — a value spells a string, a list or a map if it has the same items, or the same keys
     with values that spell theirs, in the same order.

  2. **Readers** — `r.FollowedBy r' R` says that `r'` succeeds wherever `r` does, leaves the same rest,
     and gives what `R` relates to what `r` gives.  There is one rule for each way to put readers
     together; loops go by induction on their turns.

  3. **Types** — the reader of values follows the readers of strings, lists and maps, one level of
     nesting for each.  A repeated key keeps its first place and takes its last value on both sides, so
     the entries stay paired.
-/
import Mathlib.Data.List.Forall2
import FieldAccess.Json.Typed
import FieldAccess.Json.Parser
import FieldAccess.Proofs.Collections.Traversal

namespace FieldAccess

/-! ## Values -/

/-- A member stands for an entry of a map: its key by `key?`, its value by `R`. -/
def Entries.Paired {κ ν : Type} (key? : String → Option κ) (R : ν → Json → Prop) (e : κ × ν)
    (x : String × Json) : Prop := key? x.1 = some e.1 ∧ R e.2 x.2

/-- A value is an object whose members stand for the entries of a map, in order. -/
def OrderedMap.SpelledBy {κ ν : Type} (key? : String → Option κ) (R : ν → Json → Prop)
    (m : OrderedMap κ ν) (v : Json) : Prop :=
  ∃ ms, v = .object ms ∧ List.Forall₂ (Entries.Paired key? R) m.entries ms

section Entries

variable {κ ν : Type} [DecidableEq κ] {key? : String → Option κ} {R : ν → Json → Prop}

/-- Assigning to keys that stand for each other keeps the entries paired. -/
theorem Entries.forall₂_put (hinj : ∀ m n k, key? m = some k → key? n = some k → m = n) {n : String}
    {k : κ} {a : ν} {v : Json} (hk : key? n = some k) (hv : R a v) {es : List (κ × ν)}
    {ms : List (String × Json)}
    (h : List.Forall₂ (Paired key? R) es ms) :
    List.Forall₂ (Paired key? R) (put k a es) (put n v ms) := by
  induction h with
  | nil => exact .cons ⟨hk, hv⟩ .nil
  | @cons e x es ms hex hrest ih =>
    obtain ⟨k', a'⟩ := e
    obtain ⟨n', v'⟩ := x
    have hk' : key? n' = some k' := hex.1
    have heq : k' = k ↔ n' = n := by
      constructor
      · rintro rfl
        exact hinj n' n k' hk' hk
      · rintro rfl
        exact Option.some.inj (hk'.symm.trans hk)
    show List.Forall₂ _ (if k' = k then (k', a) :: es else (k', a') :: put k a es)
      (if n' = n then (n', v) :: ms else (n', v') :: put n v ms)
    by_cases hkey : k' = k
    · rw [if_pos hkey, if_pos (heq.1 hkey)]
      exact .cons ⟨hk', hv⟩ hrest
    · rw [if_neg hkey, if_neg (mt heq.2 hkey)]
      exact .cons hex ih

end Entries

namespace Json.Reader

variable {α β γ δ : Type}

/-! ## Readers -/

/-- Wherever `r` succeeds, `r'` does too, leaves the same rest, and gives what is related. -/
def FollowedBy (r : Reader α) (r' : Reader β) (R : α → β → Prop) : Prop :=
  ∀ cs a rest, r cs = .ok (a, rest) → ∃ b, r' cs = .ok (b, rest) ∧ R a b

section Rules

variable {r : Reader α} {r' : Reader β} {R : α → β → Prop} {f : α → Reader γ} {g : β → Reader δ}
  {S : γ → δ → Prop}

theorem FollowedBy.pure {a : α} {b : β} (h : R a b) :
    FollowedBy (Pure.pure a : Reader α) (Pure.pure b : Reader β) R := by
  intro cs a' rest e
  cases e
  exact ⟨b, rfl, h⟩

/-- A reader that never succeeds is followed by every other. -/
theorem FollowedBy.of_fails (h : ∀ cs p, r cs ≠ .ok p) : FollowedBy r r' R :=
  fun cs a rest e => absurd e (h cs (a, rest))

theorem FollowedBy.fail {e : Fault} : FollowedBy (Reader.fail e : Reader α) r' R :=
  .of_fails fun _ _ h => by cases h

theorem FollowedBy.bind (h : FollowedBy r r' R) (hf : ∀ a b, R a b → FollowedBy (f a) (g b) S) :
    FollowedBy (r >>= f) (r' >>= g) S := by
  intro cs c rest e
  have e : (r cs >>= fun p => f p.1 p.2) = .ok (c, rest) := e
  obtain ⟨⟨a, mid⟩, ha, hc⟩ := bind_eq_ok.1 e
  obtain ⟨b, hb, hab⟩ := h cs a mid ha
  obtain ⟨d, hd, hcd⟩ := hf a b hab mid c rest hc
  refine ⟨d, ?_, hcd⟩
  show (r' cs >>= fun p => g p.1 p.2) = .ok (d, rest)
  rw [hb]
  exact hd

theorem FollowedBy.refl (r : Reader α) : FollowedBy r r (· = ·) := fun _ a _ e => ⟨a, e, rfl⟩

/-- What both sides do first may be any reader at all. -/
theorem FollowedBy.after (x : Reader γ) {f : γ → Reader α} {g : γ → Reader β}
    (h : ∀ c, FollowedBy (f c) (g c) R) : FollowedBy (x >>= f) (x >>= g) R :=
  (FollowedBy.refl x).bind fun c _ e => e ▸ h c

/-! What a reader gives may be worked on further, on either side. -/

theorem FollowedBy.mapLeft {T : γ → β → Prop} (h : FollowedBy r r' R) {p : α → γ}
    (hp : ∀ a b, R a b → T (p a) b) : FollowedBy (do return p (← r)) r' T := by
  have hm : FollowedBy (do return p (← r)) (r' >>= Pure.pure) T :=
    h.bind fun a b hab => .pure (hp a b hab)
  rw [bind_pure] at hm
  exact hm

theorem FollowedBy.mapRight {T : α → δ → Prop} (h : FollowedBy r r' R) {q : β → δ}
    (hq : ∀ a b, R a b → T a (q b)) : FollowedBy r (do return q (← r')) T := by
  have hm : FollowedBy (r >>= Pure.pure) (do return q (← r')) T :=
    h.bind fun a b hab => .pure (hq a b hab)
  rw [bind_pure] at hm
  exact hm

end Rules

/-! ### Loops -/

theorem followedBy_items {item : Reader α} {item' : Reader β} {R : α → β → Prop}
    (h : FollowedBy item item' R) (turns : List Char) (first : Bool) :
    FollowedBy (items item turns first) (items item' turns first) (List.Forall₂ R) := by
  induction turns generalizing first with
  | nil => exact .fail
  | cons c turns ih =>
    unfold items
    refine .after _ fun goesOn => ?_
    split
    · refine h.bind fun a b hab => ?_
      exact (ih false).bind fun as bs has => .pure (.cons hab has)
    · exact .pure .nil

theorem followedBy_listBody {item : Reader α} {item' : Reader β} {R : α → β → Prop}
    (h : FollowedBy item item' R) : FollowedBy (listBody item) (listBody item') (List.Forall₂ R) := by
  unfold listBody
  refine .after _ fun turns => (followedBy_items h turns true).bind fun as bs has => ?_
  exact .after _ fun _ => .pure has

/-- Members that keep the accumulators related add up to what is related. -/
theorem followedBy_members {step : α → String → Reader α} {step' : β → String → Reader β}
    {I : α → β → Prop} (h : ∀ a b k, I a b → FollowedBy (step a k) (step' b k) I) (turns : List Char)
    (first : Bool) {a : α} {b : β} (hab : I a b) :
    FollowedBy (members step turns first a) (members step' turns first b) I := by
  induction turns generalizing first a b with
  | nil => exact .fail
  | cons c turns ih =>
    unfold members
    refine .after _ fun goesOn => ?_
    split
    · exact .after _ fun k => (h a b k hab).bind fun a' b' hab' => ih false hab'
    · exact .pure hab

theorem followedBy_objectBody {step : α → String → Reader α} {step' : β → String → Reader β}
    {I : α → β → Prop} (h : ∀ a b k, I a b → FollowedBy (step a k) (step' b k) I) {a : α} {b : β}
    (hab : I a b) : FollowedBy (objectBody step a) (objectBody step' b) I := by
  unfold objectBody
  refine .after _ fun turns => (followedBy_members h turns true hab).bind fun a' b' hab' => ?_
  exact .after _ fun _ => .pure hab'

/-! ## Types -/

/-- A mismatch is never a success. -/
theorem mismatch_ne_ok (wanted : String) (cs : List Char) (p : α × List Char) :
    mismatch wanted cs ≠ .ok p := by
  intro h
  obtain ⟨q, _, hq⟩ := bind_eq_ok.1 (show (found cs >>= fun q => fail _ q.2) = .ok p from h)
  cases hq

theorem followedBy_string (depth : Nat) : FollowedBy string (value depth) fun s v => v = .string s := by
  have h : ∀ nested, FollowedBy string (valueWith nested) fun s v => v = .string s := by
    intro nested
    unfold string valueWith
    refine .after _ fun next => ?_
    split
    · refine .after _ fun _ => (FollowedBy.refl stringBody).mapRight ?_
      rintro s _ rfl
      rfl
    · exact .of_fails (mismatch_ne_ok _)
  cases depth with
  | zero => exact h none
  | succ depth => exact h (some (value depth))

theorem followedBy_list {item : Reader α} {R : α → Json → Prop} {depth : Nat}
    (h : FollowedBy item (value depth) R) (wanted : String) :
    FollowedBy (list wanted item) (value (depth + 1)) fun as v =>
      ∃ vs, v = .array vs ∧ List.Forall₂ R as vs := by
  refine .after _ fun next => ?_
  split
  · exact .after _ fun _ => (followedBy_listBody h).mapRight fun as vs has => ⟨vs, rfl, has⟩
  · exact .of_fails (mismatch_ne_ok wanted)

/-- No two names may stand for one key, and a key is made of its name without reading on. -/
theorem followedBy_map {κ : Type} [DecidableEq κ] {key? : String → Option κ}
    (hinj : ∀ m n k, key? m = some k → key? n = some k → m = n) {ofKey : String → Reader κ}
    (hkey : ∀ n cs k rest, ofKey n cs = .ok (k, rest) → key? n = some k ∧ rest = cs)
    {item : Reader α} {R : α → Json → Prop} {depth : Nat} (h : FollowedBy item (value depth) R)
    (wanted : String) :
    FollowedBy (map wanted ofKey item) (value (depth + 1)) (OrderedMap.SpelledBy key? R) := by
  -- a member is read into the map and into the members side by side
  have hstep : ∀ (m : OrderedMap κ α) (ms : List (String × Json)) (n : String),
      List.Forall₂ (Entries.Paired key? R) m.entries ms →
        FollowedBy (do
          let k ← ofKey n
          colon
          return m.insert k (← item)) (valueWith.memberWith (value depth) ms n)
          fun m ms => List.Forall₂ (Entries.Paired key? R) m.entries ms := by
    intro m ms n hm cs m' rest hread
    obtain ⟨⟨k, mid⟩, hk, hmember⟩ := bind_eq_ok.1 hread
    obtain ⟨hname, rfl⟩ := hkey n cs k mid hk
    have hrest : FollowedBy (do
        colon
        return m.insert k (← item)) (valueWith.memberWith (value depth) ms n)
        fun m ms => List.Forall₂ (Entries.Paired key? R) m.entries ms :=
      .after _ fun _ => h.bind fun a v hv => .pure (Entries.forall₂_put hinj hname hv hm)
    exact hrest mid m' rest hmember
  refine .after _ fun next => ?_
  split
  · refine .after _ fun _ => (followedBy_objectBody hstep ?_).mapRight fun m ms hm => ⟨ms, rfl, hm⟩
    exact .nil
  · exact .of_fails (mismatch_ne_ok wanted)

/-- A text that the one reader accepts is accepted by the other. -/
theorem FollowedBy.run {r : Reader α} {r' : Reader β} {R : α → β → Prop} (h : FollowedBy r r' R)
    {text : String} {a : α} (hr : r.run text = .ok a) : ∃ b, r'.run text = .ok b ∧ R a b := by
  obtain ⟨⟨a', rest⟩, hread, e⟩ := bind_eq_ok.1 hr
  cases e
  have hwhole : FollowedBy (do
      let a ← r
      finish
      return a) (do
      let b ← r'
      finish
      return b) R := h.bind fun a b hab => .after _ fun _ => .pure hab
  obtain ⟨b, hb, hab⟩ := hwhole _ _ _ hread
  refine ⟨b, ?_, hab⟩
  unfold Reader.run
  rw [hb]
  rfl

end Json.Reader

end FieldAccess
