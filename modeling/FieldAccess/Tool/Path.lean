/-
  Paths, as the tool takes them.

  1. **Parts** — a path is cut at its slashes; joined again with slashes, the parts are the path.

  2. **Names** — a file goes by the last part that is neither empty nor `.`, unless that is `..`; its
     stem is that name without its last extension.

  3. **Files** — an empty part or `.` leads nowhere else, as long as another part follows.  At the end
     it asks for a directory, so there it counts: nothing may follow the name of a file.

  Core only.
-/

namespace FieldAccess.Tool.Path

/-! ## Parts -/

/-- The parts of a path between its slashes. -/
def parts : List Char → List (List Char)
  | [] => [[]]
  | c :: cs => if c = '/' then [] :: parts cs else (parts cs).modifyHead (c :: ·)

theorem parts_ne_nil : ∀ cs : List Char, parts cs ≠ []
  | [] => by simp [parts]
  | c :: cs => by
    have := parts_ne_nil cs
    unfold parts
    split
    · simp
    · obtain ⟨p, ps, hp⟩ := List.exists_cons_of_ne_nil this
      simp [hp]

/-- Nothing is lost between the parts. -/
theorem intercalate_parts (cs : List Char) : ['/'].intercalate (parts cs) = cs := by
  induction cs with
  | nil => rfl
  | cons c cs ih =>
    obtain ⟨p, ps, hp⟩ := List.exists_cons_of_ne_nil (parts_ne_nil cs)
    unfold parts
    rw [hp] at ih ⊢
    by_cases h : c = '/'
    · subst h
      rw [if_pos rfl, List.intercalate_cons_cons, ih]
      rfl
    · rw [if_neg h]
      rw [← ih]
      cases ps <;> simp [List.intercalate, List.intersperse]

/-- No part holds a slash. -/
theorem slash_not_mem_parts {cs p : List Char} (h : p ∈ parts cs) : '/' ∉ p := by
  induction cs generalizing p with
  | nil => simp [parts] at h; simp [h]
  | cons c cs ih =>
    obtain ⟨q, qs, hq⟩ := List.exists_cons_of_ne_nil (parts_ne_nil cs)
    unfold parts at h
    rw [hq] at h ih
    by_cases hc : c = '/'
    · rw [if_pos hc] at h
      rcases List.mem_cons.1 h with h | h
      · simp [h]
      · exact ih h
    · rw [if_neg hc] at h
      rcases List.mem_cons.1 h with h | h
      · have := ih (List.mem_cons_self : q ∈ q :: qs)
        rw [h]
        simp [this, Ne.symm hc]
      · exact ih (List.mem_cons_of_mem _ h)

/-- Whether a part stays where it is. -/
def staysPut (part : List Char) : Bool := part = [] ∨ part = ['.']

/-! ## Names -/

/-- The name by which a path calls its file; a path that ends in `..`, and one without any part, name
none. -/
def name? (path : String) : Option String :=
  match ((parts path.toList).filter fun part => !staysPut part).getLast? with
  | some part => if part = ['.', '.'] then none else some (String.ofList part)
  | none => none

/-- Drops the last extension of a file name; a leading dot starts no extension. -/
def stem (name : String) : String :=
  let cs := name.toList
  let after := cs.reverse.takeWhile (· ≠ '.')
  let before := cs.take (cs.length - after.length - 1)
  if name = ".." ∨ ¬ '.' ∈ cs ∨ before = [] then name else String.ofList before

/-! ## Files -/

/-- The directories that a path walks through, and what it ends on. -/
def walk (path : List Char) : List (List Char) :=
  (parts path).dropLast.filter (fun part => !staysPut part) ++ (parts path).getLast?.toList

/-- Whether two paths lead to one file, seen from the same directory. -/
def same (p q : String) : Bool :=
  (p.toList.head? = some '/' ↔ q.toList.head? = some '/') ∧ walk p.toList = walk q.toList

example : stem "user.perms.json" = "user.perms" := by decide +kernel
example : stem ".json" = ".json" ∧ stem "x." = "x" := by decide +kernel
example : name? "a//b.json/." = some "b.json" ∧ name? "a/.." = none := by decide +kernel
example : same "././/p.json" "p.json" = true := by decide +kernel
example : same "p.json/." "p.json" = false ∧ same "/p.json" "p.json" = false := by decide +kernel

end FieldAccess.Tool.Path
