/-
  What a listing tells about a table.

  1. **Lines** — a listing is the name of the model and then one line for each role and each of its
     actions.  Names without spaces and line breaks can be cut out of their line again: the action ends
     at the first space behind the indentation, however wide its column is, and a comma ends a field
     only where a space follows, so names may hold commas.

  2. **Tables** — a role without actions is a line that is followed by a role or by nothing, so the
     lines of a table determine it, empty entries included (`eq_of_lines_eq`).

  3. **Documents** — the names of a table are those of its document and a few more that hold no space.
     Hence two documents without spaces in their names are listed alike iff they have the same table
     (`inspect_eq_iff`).
-/
import FieldAccess.Proofs.Policy.Origins
import FieldAccess.Proofs.Tool.Commands

namespace FieldAccess.Tool

/-! ## Cutting texts -/

/-- A name that ends where the next space or line break stands. -/
def Unbroken (n : String) : Prop := ' ' ∉ n.toList ∧ '\n' ∉ n.toList

instance (n : String) : Decidable (Unbroken n) :=
  inferInstanceAs (Decidable (' ' ∉ n.toList ∧ '\n' ∉ n.toList))

/-- A text is cut in one way only at its first separator. -/
theorem eq_of_cut_eq {c : Char} {as bs xs ys : List Char} (ha : c ∉ as) (hb : c ∉ bs)
    (h : as ++ c :: xs = bs ++ c :: ys) : as = bs ∧ xs = ys := by
  induction as generalizing bs with
  | nil =>
    cases bs with
    | nil => exact ⟨rfl, (List.cons.inj h).2⟩
    | cons b bs => exact absurd ((List.cons.inj h).1 ▸ List.mem_cons_self) hb
  | cons a as ih =>
    cases bs with
    | nil => exact absurd ((List.cons.inj h).1 ▸ List.mem_cons_self) ha
    | cons b bs =>
      obtain ⟨hab, hrest⟩ := List.cons.inj h
      obtain ⟨hheads, htails⟩ := ih (fun hm => ha (List.mem_cons_of_mem _ hm))
        (fun hm => hb (List.mem_cons_of_mem _ hm)) hrest
      exact ⟨by rw [hab, hheads], htails⟩

/-- The first of the spaces behind a name can be taken for the one that fills its column. -/
theorem column_append (n : List Char) (k : Nat) (xs : List Char) :
    n ++ List.replicate k ' ' ++ ' ' :: xs = n ++ ' ' :: (List.replicate k ' ' ++ xs) := by
  rw [List.append_assoc, List.append_cons, ← List.replicate_succ', List.replicate_succ]
  rfl

/-- Texts that are set apart by a comma and a space. -/
def joined (fs : List (List Char)) : List Char := [',', ' '].intercalate fs

theorem joined_singleton (f : List Char) : joined [f] = f := List.intercalate_singleton

theorem joined_cons_cons (f g : List Char) (fs : List (List Char)) :
    joined (f :: g :: fs) = (f ++ [',']) ++ ' ' :: joined (g :: fs) := by
  unfold joined
  rw [List.intercalate_cons_cons]
  simp

theorem joined_ne_nil {f : List Char} (hf : f ≠ []) (fs : List (List Char)) :
    joined (f :: fs) ≠ [] := by
  cases fs with
  | nil => rwa [joined_singleton]
  | cons g fs =>
    rw [joined_cons_cons]
    simp

/-- One text without a space is not what several are joined to. -/
theorem joined_singleton_ne {e f g : List Char} (he : ' ' ∉ e) (fs : List (List Char)) :
    joined [e] ≠ joined (f :: g :: fs) := by
  rw [joined_singleton, joined_cons_cons]
  rintro rfl
  exact he (List.mem_append_right _ List.mem_cons_self)

/-- **Joined texts are told apart** if none is empty or holds a space.  They may hold commas: a text
ends at the comma before a space. -/
theorem eq_of_joined_eq {fs gs : List (List Char)} (hf : ∀ f ∈ fs, f ≠ [] ∧ ' ' ∉ f)
    (hg : ∀ g ∈ gs, g ≠ [] ∧ ' ' ∉ g) (h : joined fs = joined gs) : fs = gs := by
  induction fs generalizing gs with
  | nil =>
    cases gs with
    | nil => rfl
    | cons g gs => exact absurd h.symm (joined_ne_nil (hg g List.mem_cons_self).1 gs)
  | cons f fs ih =>
    obtain ⟨⟨hne, hs⟩, hfs⟩ := List.forall_mem_cons.1 hf
    cases gs with
    | nil => exact absurd h (joined_ne_nil hne fs)
    | cons g gs =>
      obtain ⟨⟨_, hs'⟩, hgs⟩ := List.forall_mem_cons.1 hg
      -- each list has one text, or more than one and so a space
      rcases fs with _ | ⟨f', fs⟩ <;> rcases gs with _ | ⟨g', gs⟩
      · rw [joined_singleton, joined_singleton] at h
        rw [h]
      · exact absurd h (joined_singleton_ne hs gs)
      · exact absurd h.symm (joined_singleton_ne hs' fs)
      · rw [joined_cons_cons, joined_cons_cons] at h
        obtain ⟨hheads, htails⟩ := eq_of_cut_eq (by simp [hs]) (by simp [hs']) h
        rw [List.append_cancel_right hheads, ih hfs hgs htails]

example : joined ["a, b".toList] = joined ["a".toList, "b".toList] := by decide

theorem newline_not_mem_joined {fs : List (List Char)} (h : ∀ f ∈ fs, '\n' ∉ f) :
    '\n' ∉ joined fs := by
  induction fs with
  | nil => exact List.not_mem_nil
  | cons f fs ih =>
    obtain ⟨hf, hfs⟩ := List.forall_mem_cons.1 h
    cases fs with
    | nil => rwa [joined_singleton]
    | cons g fs =>
      rw [joined_cons_cons]
      simp [hf, ih hfs]

/-! ## Lines -/

/-- A line of a listing behind the first. -/
inductive Line where
  | role (r : Role)
  | entry (a : Action) (fields : FieldSet)

namespace Line

/-- The characters of a line. -/
def chars : Line → List Char
  | role r => [' ', ' '] ++ r.toList
  | entry a fs =>
    [' ', ' ', ' ', ' '] ++ (a.name.toList ++
      List.replicate (actionWidth - a.name.toList.length) ' ' ++
      ' ' :: joined (fs.toList.map String.toList))

/-- The names of a line are unbroken and, apart from the action, not empty, and the action is the reading
of its name. -/
def Readable : Line → Prop
  | role r => r ≠ "" ∧ Unbroken r
  | entry a fs => (a.Plain ∧ Unbroken a.name) ∧ ∀ f ∈ fs, f ≠ "" ∧ Unbroken f

theorem newline_not_mem {l : Line} (hl : l.Readable) : '\n' ∉ l.chars := by
  cases l with
  | role r =>
    have hr := hl.2.2
    simp [chars, hr]
  | entry a fs =>
    have ha := hl.1.2.2
    have hf : '\n' ∉ joined (fs.toList.map String.toList) :=
      newline_not_mem_joined (List.forall_mem_map.2 fun f hf => (hl.2 f hf).2.2)
    simp [chars, ha, hf]

/-- A role does not start with a space, where the line of an action has its third one. -/
theorem role_ne_entry {r : Role} (hr : (role r).Readable) (a : Action) (fs : FieldSet) :
    (role r).chars ≠ (entry a fs).chars := by
  intro h
  have hsplit : [' ', ' '] ++ r.toList = [' ', ' '] ++ ' ' :: _ := h
  have hfirst : r.toList = ' ' :: _ := List.append_cancel_left hsplit
  exact hr.2.1 (hfirst ▸ List.mem_cons_self)

/-- The name of an action ends at a space, with or without more of them to fill the column. -/
theorem eq_of_entry_eq {a b : Action} {fs gs : FieldSet} (ha : (entry a fs).Readable)
    (hb : (entry b gs).Readable) (h : (entry a fs).chars = (entry b gs).chars) :
    a = b ∧ fs = gs := by
  replace h := List.append_cancel_left h
  rw [column_append, column_append] at h
  obtain ⟨hname, hrest⟩ := eq_of_cut_eq ha.1.2.1 hb.1.2.1 h
  have hab : a = b := AccessTable.eq_of_name_eq ha.1.1 hb.1.1 (String.toList_inj.1 hname)
  subst hab
  have hkept : ∀ {hs : FieldSet}, (entry a hs).Readable →
      ∀ f ∈ hs.toList.map String.toList, f ≠ [] ∧ ' ' ∉ f := by
    intro hs hr
    refine List.forall_mem_map.2 fun f hf => ⟨fun e => (hr.2 f hf).1 ?_, (hr.2 f hf).2.1⟩
    exact String.toList_inj.1 e
  have hfields := eq_of_joined_eq (hkept ha) (hkept hb) (List.append_cancel_left hrest)
  have hinj : Function.Injective String.toList := fun _ _ => String.toList_inj.1
  exact ⟨rfl, OrderedSet.ext_toList (List.map_injective_iff.2 hinj hfields)⟩

/-- **Lines are told apart** by their characters. -/
theorem eq_of_chars_eq {k l : Line} (hk : k.Readable) (hl : l.Readable) (h : k.chars = l.chars) :
    k = l := by
  cases k with
  | role r =>
    cases l with
    | role r' => rw [String.toList_inj.1 (List.append_cancel_left h)]
    | entry b gs => exact absurd h (role_ne_entry hk b gs)
  | entry a fs =>
    cases l with
    | role r' => exact absurd h.symm (role_ne_entry hl a fs)
    | entry b gs =>
      obtain ⟨rfl, rfl⟩ := eq_of_entry_eq hk hl h
      rfl

/-- The line with its end. -/
def printed (l : Line) : List Char := l.chars ++ ['\n']

/-- A text of readable lines is read back line by line. -/
theorem eq_of_printed_eq {ks ls : List Line} (hk : ∀ k ∈ ks, k.Readable) (hl : ∀ l ∈ ls, l.Readable)
    (h : ks.flatMap printed = ls.flatMap printed) : ks = ls := by
  have hne : ∀ (l : Line) (ls : List Line), [] ≠ (l :: ls).flatMap printed := by
    intro l ls
    simp [printed]
  induction ks generalizing ls with
  | nil =>
    cases ls with
    | nil => rfl
    | cons l ls => exact absurd h (hne l ls)
  | cons k ks ih =>
    cases ls with
    | nil => exact absurd h.symm (hne k ks)
    | cons l ls =>
      obtain ⟨hkr, hks⟩ := List.forall_mem_cons.1 hk
      obtain ⟨hlr, hls⟩ := List.forall_mem_cons.1 hl
      rw [List.flatMap_cons, List.flatMap_cons, printed, printed, List.append_assoc,
        List.append_assoc] at h
      obtain ⟨hhead, hrest⟩ := eq_of_cut_eq (newline_not_mem hkr) (newline_not_mem hlr) h
      rw [eq_of_chars_eq hkr hlr hhead, ih hks hls hrest]

end Line

/-! ## Tables -/

/-- The line of an action. -/
def entryLine (e : Action × FieldSet) : Line := .entry e.1 e.2

/-- The lines of some roles. -/
def lines (es : List (Role × ActionTable)) : List Line :=
  es.flatMap fun e => .role e.1 :: e.2.entries.map entryLine

theorem toList_actionLine (e : Action × FieldSet) :
    (actionLine e).toList = (entryLine e).printed := by
  unfold actionLine Line.printed entryLine Line.chars joined
  simp [Text.toList_padRight]

theorem toList_roleLines (e : Role × ActionTable) :
    (roleLines e).toList = (Line.role e.1 :: e.2.entries.map entryLine).flatMap Line.printed := by
  have hentries : (e.2.entries.map actionLine).flatMap String.toList =
      (e.2.entries.map entryLine).flatMap Line.printed := by
    rw [List.flatMap_map, List.flatMap_map]
    exact List.flatMap_congr fun x _ => toList_actionLine x
  unfold roleLines
  rw [String.toList_append, String.toList_join, hentries, List.flatMap_cons]
  simp [Line.printed, Line.chars]

/-- A listing is the name of the model and the lines of its table. -/
theorem toList_listing (m : Model) :
    m.listing.toList =
      m.name.toList ++ '\n' :: (lines m.table.roles.entries).flatMap Line.printed := by
  have hroles : (m.table.roles.entries.map roleLines).flatMap String.toList =
      (lines m.table.roles.entries).flatMap Line.printed := by
    unfold lines
    rw [List.flatMap_map, List.flatMap_assoc]
    exact List.flatMap_congr fun e _ => toList_roleLines e
  unfold Model.listing
  rw [String.toList_append, String.toList_join, hroles]
  simp

/-- What follows the actions of a role does not start with one. -/
theorem lines_ne_entry (es : List (Role × ActionTable)) (x : Action × FieldSet) (ls : List Line) :
    lines es ≠ entryLine x :: ls := by
  intro h
  cases es with
  | nil => cases h
  | cons e es => cases (List.cons.inj h).1

/-- The actions of a role end where the next role starts. -/
theorem eq_of_entryLines_eq {xs ys : List (Action × FieldSet)} {es es' : List (Role × ActionTable)}
    (h : xs.map entryLine ++ lines es = ys.map entryLine ++ lines es') :
    xs = ys ∧ lines es = lines es' := by
  induction xs generalizing ys with
  | nil =>
    cases ys with
    | nil => exact ⟨rfl, h⟩
    | cons y ys => exact absurd h (lines_ne_entry es y _)
  | cons x xs ih =>
    cases ys with
    | nil => exact absurd h.symm (lines_ne_entry es' x _)
    | cons y ys =>
      obtain ⟨hxy, hrest⟩ := List.cons.inj h
      obtain ⟨hxs, hes⟩ := ih hrest
      cases x
      cases y
      cases hxy
      exact ⟨by rw [hxs], hes⟩

/-- **The lines of a table determine it**, roles without actions and empty entries included. -/
theorem eq_of_lines_eq {es es' : List (Role × ActionTable)} (h : lines es = lines es') : es = es' := by
  induction es generalizing es' with
  | nil =>
    cases es' with
    | nil => rfl
    | cons e' es' => cases h
  | cons e es ih =>
    cases es' with
    | nil => cases h
    | cons e' es' =>
      obtain ⟨r, u⟩ := e
      obtain ⟨r', u'⟩ := e'
      obtain ⟨hr, hrest⟩ := List.cons.inj h
      obtain ⟨hentries, hlines⟩ := eq_of_entryLines_eq hrest
      have hu : u = u' := OrderedMap.ext_entries hentries
      cases hr
      rw [hu, ih hlines]

/-- Tables as documents give them, with unbroken names. -/
structure Listable (t : AccessTable) : Prop where
  canonical : t.Canonical
  filled : t.Filled
  unbroken : t.NamesAre Unbroken

theorem Listable.readable {t : AccessTable} (ht : Listable t) :
    ∀ l ∈ lines t.roles.entries, l.Readable := by
  intro l hl
  obtain ⟨e, he, hl⟩ := List.mem_flatMap.1 hl
  rcases List.mem_cons.1 hl with rfl | hl
  · exact ⟨ht.filled.roles e he, ht.unbroken.roles e he⟩
  · obtain ⟨x, hx, rfl⟩ := List.mem_map.1 hl
    have hkey := List.mem_map_of_mem (f := Prod.fst) hx
    refine ⟨⟨ht.canonical.actions e he x.1 hkey, ht.unbroken.actions e he x.1 hkey⟩, ?_⟩
    intro f hf
    exact ⟨fun hempty => ht.filled.fields e he x hx (hempty ▸ hf), ht.unbroken.fields e he x hx f hf⟩

/-- Two models of one name are listed alike iff their tables are the same. -/
theorem listing_eq_iff {name : String} {t u : AccessTable} (ht : Listable t) (hu : Listable u) :
    Model.listing ⟨name, t⟩ = Model.listing ⟨name, u⟩ ↔ t = u := by
  constructor
  · intro h
    have h := congrArg String.toList h
    rw [toList_listing, toList_listing] at h
    have h := (List.cons.inj (List.append_cancel_left h)).2
    have hentries := eq_of_lines_eq (Line.eq_of_printed_eq ht.readable hu.readable h)
    exact congrArg AccessTable.mk (OrderedMap.ext_entries hentries)
  · rintro rfl
    rfl

/-! ## Documents -/

/-- No name of the declaration holds a space or a line break. -/
def Unspaced (d : Declaration) : Prop := ∀ n place, d.Names n place → Unbroken n

theorem unspaced_iff {d : Declaration} :
    Unspaced d ↔
      (∀ e ∈ d.roles.entries, Unbroken e.1) ∧
      (∀ rule ∈ d.allRules, (∀ a ∈ rule.actions, Unbroken a.name) ∧
        ∀ f ∈ rule.fields.toList, Unbroken f) ∧
      (∀ e ∈ d.mappings, Unbroken e.1.name ∧ ∀ f ∈ e.2.toList, Unbroken f) ∧
      ∀ a ∈ d.actions.getD [], Unbroken a.name := by
  constructor
  · intro h
    refine ⟨fun e he => h _ .role ⟨e, he, rfl⟩, fun rule hr => ⟨?_, ?_⟩, fun e he => ⟨?_, ?_⟩, ?_⟩
    · exact fun a ha => h _ .ruleAction ⟨rule, hr, a, ha, rfl⟩
    · exact fun f hf => h f .ruleField ⟨rule, hr, hf⟩
    · exact h _ .mappingAction ⟨e, he, rfl⟩
    · exact fun f hf => h f .mappingField ⟨e, he, hf⟩
    · intro a ha
      cases hd : d.actions with
      | none =>
        rw [hd] at ha
        cases ha
      | some as =>
        rw [hd] at ha
        exact h _ .listedAction ⟨as, hd, a, ha, rfl⟩
  · rintro ⟨hroles, hrules, hmappings, hlisted⟩ n place hn
    cases place with
    | role =>
      obtain ⟨e, he, rfl⟩ := hn
      exact hroles e he
    | ruleAction =>
      obtain ⟨rule, hr, a, ha, rfl⟩ := hn
      exact (hrules rule hr).1 a ha
    | ruleField =>
      obtain ⟨rule, hr, hf⟩ := hn
      exact (hrules rule hr).2 n hf
    | mappingAction =>
      obtain ⟨e, he, rfl⟩ := hn
      exact (hmappings e he).1
    | mappingField =>
      obtain ⟨e, he, hf⟩ := hn
      exact (hmappings e he).2 n hf
    | listedAction =>
      obtain ⟨as, hd, a, ha, rfl⟩ := hn
      rw [hd] at hlisted
      exact hlisted a ha

instance (d : Declaration) : Decidable (Unspaced d) := decidable_of_iff _ unspaced_iff.symm

/-- The table of a text whose names hold no space or line break. -/
theorem listable_of_parse {text : String} {d : Declaration} {t : AccessTable}
    (hd : Declaration.parse text = .ok d) (hs : Unspaced d) (ht : AccessTable.parse text = .ok t) :
    Listable t := by
  have hb : AccessTable.build d = .ok t := by
    have h : (Declaration.parse text >>= fun d => (AccessTable.build d).mapError _) = .ok t := ht
    rw [hd] at h
    exact mapError_eq_ok.1 h
  obtain ⟨hn, rfl⟩ := AccessTable.build_eq_ok_iff.1 hb
  have hbuiltIn : ∀ a ∈ Action.builtIns, Unbroken a.name := by decide
  exact ⟨AccessTable.canonical_of_parse ht, hn.filled,
    Declaration.namesAre_compile (by decide) hbuiltIn (by decide) hs⟩

theorem inspect_eq {path text : String} {t : AccessTable} (ht : AccessTable.parse text = .ok t) :
    inspect ⟨path, some text⟩ = .ok (Model.listing ⟨modelName path, t⟩) := by
  have hl : load ⟨path, some text⟩ = .ok _ := load_eq_ok_iff.2 ⟨text, t, rfl, ht, rfl⟩
  unfold inspect
  rw [hl]
  rfl

/-- **Listings are faithful**: of two documents that are accepted, in files of one name, and whose names
hold no space or line break, `inspect` prints the same iff their tables are the same, with their roles,
actions and fields in the same order. -/
theorem inspect_eq_iff {text text' : String} {d d' : Declaration} {t t' : AccessTable}
    (ht : AccessTable.parse text = .ok t) (ht' : AccessTable.parse text' = .ok t')
    (hd : Declaration.parse text = .ok d) (hd' : Declaration.parse text' = .ok d')
    (hs : Unspaced d) (hs' : Unspaced d') {path path' : String}
    (hp : Path.name? path = Path.name? path') :
    ∃ out out', inspect ⟨path, some text⟩ = .ok out ∧ inspect ⟨path', some text'⟩ = .ok out' ∧
      (out = out' ↔ t = t') := by
  refine ⟨_, _, inspect_eq ht, inspect_eq ht', ?_⟩
  unfold modelName
  rw [hp]
  exact listing_eq_iff (listable_of_parse hd hs ht) (listable_of_parse hd' hs' ht')

/-- A role with an entry for an action but no field, and the same role without actions: two tables, and
two listings. -/
theorem inspect_eq_iff_empty_entry :
    let text := "\x7b\"self\": \x7b\"update\": []\x7d\x7d"
    let text' := "\x7b\"self\": []\x7d"
    ∃ out out', inspect ⟨"old/user.json", some text⟩ = .ok out ∧
      inspect ⟨"new/user.json", some text'⟩ = .ok out' ∧ out ≠ out' := by
  intro text text'
  let d : Declaration := { roles := .ofList [("self", .table (.ofList [(.update, ∅)]))] }
  let d' : Declaration := { roles := .ofList [("self", .rules [])] }
  have hp : Json.parse text = .ok (.object [("self", .object [("update", .array [])])]) := by
    unfold Json.parse Json.Reader.run
    have hl : text.toList = _ := String.toList_ofList ..
    rw [hl]
    rfl
  have hp' : Json.parse text' = .ok (.object [("self", .array [])]) := by
    unfold Json.parse Json.Reader.run
    have hl : text'.toList = _ := String.toList_ofList ..
    rw [hl]
    rfl
  have hd : Declaration.parse text = .ok d := by
    unfold Declaration.parse
    rw [hp]
    rfl
  have hd' : Declaration.parse text' = .ok d' := by
    unfold Declaration.parse
    rw [hp']
    rfl
  have ht : AccessTable.parse text = .ok d.compile := by
    unfold AccessTable.parse
    rw [hd]
    rfl
  have ht' : AccessTable.parse text' = .ok d'.compile := by
    unfold AccessTable.parse
    rw [hd']
    rfl
  have hname : Path.name? "old/user.json" = Path.name? "new/user.json" := by decide
  obtain ⟨out, out', ho, ho', h⟩ :=
    inspect_eq_iff ht ht' hd hd' (by decide : Unspaced d) (by decide : Unspaced d') hname
  exact ⟨out, out', ho, ho', fun e => absurd (h.1 e) (by decide)⟩

end FieldAccess.Tool
