/-
  Actor scopes that end in any order.

  1. **Threads** — a thread enters scopes of any kind and drops those that are alive, in any order.  It
     owns the handles of the scopes that are alive, oldest first; what it owns depends on nothing that
     the stacks hold.

  2. **Stacks** — `Synced`, the invariant: the numbers of the scopes that are alive are distinct and below
     the counter, and the stack of every kind lists the scopes of that kind that are alive, in order.

  3. **The crux** — removing the last entry with a number takes out the entry of the dropped scope
     wherever it stands, because no later scope has that number (`removeLast_entries`).  As long as the
     counter has not come round, entering keeps the numbers distinct.

  4. **Main statement** — `stacks_of_run`: after any moves with fewer than 2^64 entries, whoever acts is
     the actor of the last scope of the kind that is alive.

  Core only.
-/
import FieldAccess.Actors.Scope

namespace FieldAccess.Actors

variable {κ : Type} {A : κ → Type}

/-! ## Threads -/

/-- A scope that is alive: its kind and number, and the actor it was entered with. -/
structure Alive (κ : Type) (A : κ → Type) where
  kind : κ
  id : UInt64
  actor : Option (A kind)

/-- The handle on a scope that is alive. -/
def Alive.scope (o : Alive κ A) : Scope κ := ⟨o.kind, o.id⟩

/-- A thread: its stacks, and the scopes that it entered and did not drop, oldest first. -/
structure Thread (κ : Type) (A : κ → Type) where
  state : Stacks κ A
  alive : List (Alive κ A)

/-- What a thread does with scopes: it enters one, or drops one of those that are alive, by its
place among them. -/
inductive Move (κ : Type) (A : κ → Type) where
  | enter (k : κ) (actor : Option (A k))
  | drop (i : Nat)

/-- How many scopes are entered. -/
def Move.entries : List (Move κ A) → Nat
  | [] => 0
  | .enter _ _ :: ms => entries ms + 1
  | .drop _ :: ms => entries ms

namespace Thread

/-- A thread that did nothing yet. -/
def start : Thread κ A := ⟨∅, []⟩

/-- The kind of the scope that a move is about. -/
def kind? (t : Thread κ A) : Move κ A → Option κ
  | .enter k _ => some k
  | .drop i => t.alive[i]?.map Alive.kind

variable [DecidableEq κ]

/-- Does one move; a place where no scope stands has nothing to drop. -/
def step (t : Thread κ A) : Move κ A → Thread κ A
  | .enter k actor =>
    { state := (t.state.enter k actor).2
      alive := t.alive ++ [⟨k, (t.state.enter k actor).1.id, actor⟩] }
  | .drop i =>
    match t.alive[i]? with
    | none => t
    | some o => { state := t.state.leave o.scope, alive := t.alive.eraseIdx i }

/-- Does some moves, one after the other, from the start. -/
def run (ms : List (Move κ A)) : Thread κ A := ms.foldl step start

end Thread

/-! ## Entries of scopes -/

variable [DecidableEq κ]

/-- The entry of a scope on the stack of a kind, if it is of that kind. -/
def Alive.entryOn (k : κ) (o : Alive κ A) : Option (Entry (A k)) :=
  if h : o.kind = k then some ⟨o.id, h ▸ o.actor⟩ else none

theorem Alive.entryOn_self (k : κ) (id : UInt64) (actor : Option (A k)) :
    Alive.entryOn k ⟨k, id, actor⟩ = some ⟨id, actor⟩ := by simp [entryOn]

theorem Alive.entryOn_ne {k : κ} {o : Alive κ A} (h : o.kind ≠ k) : o.entryOn k = none := by
  simp [entryOn, h]

theorem Alive.id_of_entryOn {k : κ} {o : Alive κ A} {e : Entry (A k)} (h : o.entryOn k = some e) :
    e.id = o.id := by
  unfold entryOn at h
  split at h
  · cases h; rfl
  · cases h

/-- Scopes of other kinds leave no entries. -/
theorem entries_eq_nil {k : κ} {os : List (Alive κ A)} (h : ∀ o ∈ os, o.kind ≠ k) :
    os.filterMap (Alive.entryOn k) = [] := by
  rw [List.filterMap_eq_nil_iff]
  intro o ho
  exact Alive.entryOn_ne (h o ho)

/-- The numbers on a stack are among those of the scopes, in order. -/
theorem sublist_ids (k : κ) (os : List (Alive κ A)) :
    ((os.filterMap (Alive.entryOn k)).map Entry.id).Sublist (os.map Alive.id) := by
  induction os with
  | nil => exact List.Sublist.slnil
  | cons o os ih =>
    cases he : o.entryOn k with
    | none =>
      rw [List.filterMap_cons_none he]
      exact ih.cons _
    | some e =>
      rw [List.filterMap_cons_some he, List.map_cons, List.map_cons, Alive.id_of_entryOn he]
      exact ih.cons_cons _

omit [DecidableEq κ] in
/-- Where no later entry has its number, an entry is the one that is taken away. -/
theorem removeLast_append_cons {B : Type} (es : List (Entry B)) (e : Entry B) {later : List (Entry B)}
    (h : ∀ e' ∈ later, e'.id ≠ e.id) : removeLast e.id (es ++ e :: later) = es ++ later := by
  unfold removeLast
  rw [List.reverse_append, List.reverse_cons, List.append_assoc, List.singleton_append,
    List.eraseP_append_right, List.eraseP_cons_of_pos (by simp), List.reverse_append,
    List.reverse_reverse, List.reverse_reverse]
  intro e' he'
  simpa using h e' (List.mem_reverse.1 he')

/-- The crux: taking the entry of a scope off the stack of its kind leaves the entries of the other
scopes, if no scope entered later has its number. -/
theorem removeLast_entries {earlier later : List (Alive κ A)} {o : Alive κ A}
    (h : o.id ∉ later.map Alive.id) :
    removeLast o.id ((earlier ++ o :: later).filterMap (Alive.entryOn o.kind)) =
      (earlier ++ later).filterMap (Alive.entryOn o.kind) := by
  rw [List.filterMap_append, List.filterMap_append,
    List.filterMap_cons_some (Alive.entryOn_self o.kind o.id o.actor)]
  apply removeLast_append_cons _ (⟨o.id, o.actor⟩ : Entry (A o.kind))
  intro e he hid
  -- a later entry with the number would be the entry of a later scope
  obtain ⟨o', ho', he'⟩ := List.mem_filterMap.1 he
  have hmem : o'.id ∈ later.map Alive.id := List.mem_map_of_mem ho'
  rw [← Alive.id_of_entryOn he', hid] at hmem
  exact h hmem

/-- What stands at a place has something before it and something after it, and taking it out joins the
two. -/
theorem split_of_getElem? {B : Type} {l : List B} {i : Nat} {b : B} (h : l[i]? = some b) :
    ∃ earlier later, l = earlier ++ b :: later ∧ l.eraseIdx i = earlier ++ later := by
  obtain ⟨hlt, rfl⟩ := List.getElem?_eq_some_iff.1 h
  refine ⟨l.take i, l.drop (i + 1), ?_, List.eraseIdx_eq_take_drop_succ l i⟩
  rw [← List.drop_eq_getElem_cons hlt, List.take_append_drop]

/-! ## The invariant -/

namespace Thread

/-- After `n` entries: the numbers in use are distinct and below the counter, and every stack lists the
scopes of its kind that are alive. -/
structure Synced (t : Thread κ A) (n : Nat) : Prop where
  next : t.state.next = UInt64.ofNat n
  below : ∀ o ∈ t.alive, o.id.toNat < n
  distinct : (t.alive.map Alive.id).Nodup
  stack : ∀ k, t.state.stack k = t.alive.filterMap (Alive.entryOn k)

theorem synced_start : (start : Thread κ A).Synced 0 :=
  ⟨rfl, fun _ h => absurd h List.not_mem_nil, List.nodup_nil, fun _ => rfl⟩

theorem Synced.enter {t : Thread κ A} {n : Nat} (h : t.Synced n) (hn : n < UInt64.size) (k : κ)
    (actor : Option (A k)) : (t.step (.enter k actor)).Synced (n + 1) := by
  -- the counter has not come round, so the number it gives is greater than every number in use
  have hid : t.state.next.toNat = n := by
    rw [h.next, UInt64.toNat_ofNat']
    exact Nat.mod_eq_of_lt hn
  have hnew : ∀ o ∈ t.alive, o.id ≠ t.state.next := by
    intro o ho he
    have hlt := h.below o ho
    rw [he, hid] at hlt
    omega
  constructor
  · show t.state.next + 1 = UInt64.ofNat (n + 1)
    rw [h.next, UInt64.ofNat_add]
    rfl
  · intro o ho
    rcases List.mem_append.1 ho with ho | ho
    · have := h.below o ho
      omega
    · obtain rfl := List.mem_singleton.1 ho
      show t.state.next.toNat < n + 1
      omega
  · show ((t.alive ++ [_]).map Alive.id).Nodup
    rw [List.map_append, List.nodup_append]
    refine ⟨h.distinct, by simp, ?_⟩
    intro i hi j hj hij
    obtain ⟨o, ho, rfl⟩ := List.mem_map.1 hi
    obtain rfl := List.mem_singleton.1 hj
    exact hnew o ho hij
  · intro j
    show (t.state.enter k actor).2.stack j = (t.alive ++ [_]).filterMap (Alive.entryOn j)
    rw [List.filterMap_append, ← h.stack j]
    by_cases hj : j = k
    · subst hj
      rw [Stacks.stack_enter_self, List.filterMap_cons_some (Alive.entryOn_self j _ actor)]
      rfl
    · rw [Stacks.stack_enter_ne _ hj, List.filterMap_cons_none (Alive.entryOn_ne (Ne.symm hj)),
        List.filterMap_nil, List.append_nil]

theorem Synced.drop {t : Thread κ A} {n : Nat} (h : t.Synced n) (i : Nat) :
    (t.step (.drop i)).Synced n := by
  cases hi : t.alive[i]? with
  | none =>
    have ht : t.step (.drop i) = t := by simp only [step, hi]
    rw [ht]
    exact h
  | some o =>
    have ht : t.step (.drop i) = ⟨t.state.leave o.scope, t.alive.eraseIdx i⟩ := by
      simp only [step, hi]
    rw [ht]
    have hsub : (t.alive.eraseIdx i).Sublist t.alive := List.eraseIdx_sublist ..
    obtain ⟨earlier, later, hsplit, herase⟩ := split_of_getElem? hi
    refine ⟨h.next, fun o' ho' => h.below o' (hsub.subset ho'), h.distinct.sublist (hsub.map _), ?_⟩
    intro j
    show (t.state.leave o.scope).stack j = (t.alive.eraseIdx i).filterMap (Alive.entryOn j)
    rw [herase]
    by_cases hj : o.kind = j
    · subst hj
      have hlater : o.id ∉ later.map Alive.id := by
        have hd := h.distinct
        rw [hsplit, List.map_append, List.map_cons] at hd
        exact (List.nodup_cons.1 (List.nodup_append.1 hd).2.1).1
      show ((t.state.setStack o.kind (removeLast o.id (t.state.stack o.kind))).stack o.kind) = _
      rw [Stacks.stack_setStack_self, h.stack, hsplit]
      exact removeLast_entries hlater
    · rw [Stacks.stack_leave_ne _ (Ne.symm hj), h.stack, hsplit, List.filterMap_append,
        List.filterMap_cons_none (Alive.entryOn_ne hj), List.filterMap_append]

theorem Synced.step {t : Thread κ A} {n : Nat} (h : t.Synced n) {ms : List (Move κ A)} {m : Move κ A}
    (hn : n + Move.entries (m :: ms) < UInt64.size) :
    ∃ n', (t.step m).Synced n' ∧ n' + Move.entries ms < UInt64.size := by
  cases m with
  | enter k actor =>
    have hlt : n + (Move.entries ms + 1) < UInt64.size := hn
    exact ⟨n + 1, h.enter (by omega) k actor, by omega⟩
  | drop i => exact ⟨n, h.drop i, hn⟩

/-- The run: while the counter does not come round, the stacks stay in step with the scopes. -/
theorem Synced.foldl {ms : List (Move κ A)} : ∀ {t : Thread κ A} {n : Nat}, t.Synced n →
    n + Move.entries ms < UInt64.size → ∃ n', (ms.foldl Thread.step t).Synced n' := by
  induction ms with
  | nil =>
    intro t n h _
    exact ⟨n, h⟩
  | cons m ms ih =>
    intro t n h hn
    obtain ⟨n', h', hn'⟩ := h.step hn
    exact ih h' hn'

/-! ## Who acts -/

/-- The last scope of a kind that is alive decides who acts. -/
theorem Synced.current_last {t : Thread κ A} {n : Nat} (h : t.Synced n)
    {earlier later : List (Alive κ A)} {o : Alive κ A} (ho : t.alive = earlier ++ o :: later)
    (hlater : ∀ o' ∈ later, o'.kind ≠ o.kind) :
    t.state.current o.kind = o.actor := by
  unfold Stacks.current
  rw [h.stack, ho, List.filterMap_append,
    List.filterMap_cons_some (Alive.entryOn_self o.kind o.id o.actor), entries_eq_nil hlater,
    List.getLast?_concat]
  rfl

theorem Synced.current_none {t : Thread κ A} {n : Nat} (h : t.Synced n) {k : κ}
    (hk : ∀ o ∈ t.alive, o.kind ≠ k) : t.state.current k = none := by
  unfold Stacks.current
  rw [h.stack, entries_eq_nil hk]
  rfl

/-- A move about one kind leaves the stacks of the others alone. -/
theorem stack_step_ne {t : Thread κ A} {k : κ} {m : Move κ A} (h : t.kind? m ≠ some k) :
    (t.step m).state.stack k = t.state.stack k := by
  cases m with
  | enter j actor =>
    have hj : k ≠ j := fun e => h (congrArg some e.symm)
    exact Stacks.stack_enter_ne _ hj actor
  | drop i =>
    cases hi : t.alive[i]? with
    | none => simp only [step, hi]
    | some o =>
      have hk : k ≠ o.scope.kind := by
        intro e
        apply h
        simp only [kind?, hi, Option.map_some]
        exact congrArg some e.symm
      simp only [step, hi]
      exact Stacks.stack_leave_ne _ hk

/-- **Scoped actors under any order of drops.**  After any moves of a thread, with fewer than 2^64
entries of scopes of whatever kinds and any of the scopes dropped in any order: the actor of a kind is
the one of the last scope of that kind that is alive, and nobody if nobody was entered there or no
scope of the kind is alive; the stack of a kind lists the scopes of the kind that are alive, in the
order in which they were entered, under distinct numbers; and no move about another kind changes it. -/
theorem stacks_of_run (ms : List (Move κ A)) (hn : Move.entries ms < UInt64.size) :
    (∀ earlier o later, (run ms).alive = earlier ++ o :: later →
      (∀ o' ∈ later, o'.kind ≠ o.kind) → (run ms).state.current o.kind = o.actor) ∧
    (∀ k, (∀ o ∈ (run ms).alive, o.kind ≠ k) → (run ms).state.current k = none) ∧
    ∀ k, (run ms).state.stack k = (run ms).alive.filterMap (Alive.entryOn k) ∧
      (((run ms).state.stack k).map Entry.id).Nodup ∧
      ∀ m, (run ms).kind? m ≠ some k →
        ((run ms).step m).state.stack k = (run ms).state.stack k := by
  have hlt : 0 + Move.entries ms < UInt64.size := by omega
  obtain ⟨n, h⟩ := synced_start.foldl hlt
  refine ⟨fun _ _ _ => h.current_last, fun _ => h.current_none, fun k => ⟨h.stack k, ?_, ?_⟩⟩
  · rw [show (run ms).state.stack k = _ from h.stack k]
    exact h.distinct.sublist (sublist_ids k _)
  · intro m
    exact stack_step_ne

/-- Persons by name and tenants by number: the scope of `admin`, entered first, is dropped first, and
`guest` still acts, although a tenant was entered after her. -/
theorem stacks_of_run_interleaved :
    let A : Bool → Type := fun person => cond person String Nat
    let ms : List (Move Bool A) := [.enter true (some "admin"), .enter true (some "guest"),
      .enter false (some (42 : Nat)), .drop 0]
    Move.entries ms < UInt64.size ∧ (run ms).state.current true = some "guest" ∧
      (run ms).state.stack true = [⟨1, some "guest"⟩] := by
  intro A ms
  have hn : Move.entries ms < UInt64.size := by decide
  obtain ⟨hlast, -, hstack⟩ := stacks_of_run ms hn
  refine ⟨hn, ?_, (hstack true).1⟩
  apply hlast [] ⟨true, 1, some "guest"⟩ [⟨false, 2, some (42 : Nat)⟩] rfl
  intro o ho
  obtain rfl := List.mem_singleton.1 ho
  decide

end Thread

end FieldAccess.Actors
