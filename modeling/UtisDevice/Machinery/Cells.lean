import Mathlib.Data.List.Perm.Basic
import Mathlib.Data.List.Lattice
import Mathlib.Logic.Function.Basic
import UtisDevice.Machinery.Exclusive
import UtisDevice.Machinery.Latest

/-!
# Machinery/Cells — a registry is one cell per class

An exclusive list is, up to order, a cell for each class: `cells cls l k` is its member of class
`k`, and two exclusive lists with the same cells are permutations of each other (`perm_of_cells`).

A request puts a member in or takes it out.  On the cells it reads and writes the cell of its own
class only (`Ask.apply`), so requests of different classes commute; `Ask.serve` does the same on the
list (`cells_serve`), where the order records the history and commuting holds up to permutation
(`serve_comm`).  Putting in a whole list keeps the first of each class (`serveAll_put`), but an
entry of it that comes twice is refused last (`latest_marks`).  A list of requests does to a class
what the requests for that class alone do to its cell (`cells_serveAll`).
-/

namespace Machinery

variable {α κ : Type*}

/-! ## The cells of a list -/

section Cells

variable [DecidableEq κ] {cls : α → κ} {l l' : List α} {a : α} {k : κ}

/-- The member of class `k`. -/
def cells (cls : α → κ) (l : List α) (k : κ) : Option α := l.find? fun a => decide (cls a = k)

theorem cells_eq_some (h : Exclusive cls l) : cells cls l k = some a ↔ a ∈ l ∧ cls a = k := by
  constructor
  · intro hcell
    exact ⟨List.mem_of_find?_eq_some hcell, by simpa using List.find?_some hcell⟩
  · rintro ⟨ha, rfl⟩
    have hfound : (cells cls l (cls a)).isSome = true :=
      List.find?_isSome.mpr ⟨a, ha, by simp⟩
    obtain ⟨b, hb⟩ := Option.isSome_iff_exists.mp hfound
    have hcls : cls b = cls a := by simpa using List.find?_some hb
    rw [hb, h.eq_of_cls (List.mem_of_find?_eq_some hb) ha hcls]

theorem cells_eq_none : cells cls l k = none ↔ ∀ b ∈ l, cls b ≠ k := by
  simp [cells, List.find?_eq_none]

/-- **Exclusive lists with the same cells have the same members.** -/
theorem perm_of_cells (h : Exclusive cls l) (h' : Exclusive cls l')
    (hc : cells cls l = cells cls l') : l.Perm l' := by
  refine (List.perm_ext_iff_of_nodup (.of_map cls h) (.of_map cls h')).mpr fun a => ?_
  have hmem : cells cls l (cls a) = some a ↔ cells cls l' (cls a) = some a := by rw [hc]
  rw [cells_eq_some h, cells_eq_some h'] at hmem
  simpa using hmem

/-- A member joins the cell of its class. -/
theorem cells_concat (h : Exclusive cls l) (hfree : ∀ b ∈ l, cls b ≠ cls a) :
    cells cls (l ++ [a]) = Function.update (cells cls l) (cls a) (some a) := by
  funext k
  refine Option.ext fun b => ?_
  rw [cells_eq_some (exclusive_concat.mpr ⟨h, hfree⟩), Function.update_apply]
  by_cases hk : k = cls a
  · subst hk
    simp only [List.mem_append, List.mem_singleton, if_pos, Option.some.injEq]
    constructor
    · rintro ⟨hb | rfl, hcls⟩
      · exact absurd hcls (hfree b hb)
      · rfl
    · rintro rfl
      exact ⟨Or.inr rfl, rfl⟩
  · rw [if_neg hk, cells_eq_some h]
    simp only [List.mem_append, List.mem_singleton]
    constructor
    · rintro ⟨hb | rfl, rfl⟩
      · exact ⟨hb, rfl⟩
      · exact absurd rfl hk
    · rintro ⟨hb, rfl⟩
      exact ⟨Or.inl hb, rfl⟩

end Cells

/-! ## Requests -/

/-- Put a member in, or take it out. -/
inductive Ask (α : Type*)
  | put (a : α)
  | take (a : α)

namespace Ask

def member : Ask α → α
  | put a => a
  | take a => a

variable [DecidableEq α] [DecidableEq κ] (ok : α → Bool) (cls : α → κ)

/-- What a request does to the cell of its class, and how it is answered: a member goes into an
empty cell, and only the member that is in comes out. -/
def cell : Ask α → Option α → Option α × List (α × Bool)
  | put a, none => (some a, [(a, true)])
  | put a, some b => (some b, [(a, false)])
  | take a, c => if c = some a then (none, [(a, false)]) else (c, [])

/-- A request on all the cells; one for a member that is not `ok` is ignored. -/
def apply (r : Ask α) (c : κ → Option α) : (κ → Option α) × List (α × Bool) :=
  if ok r.member = true then
    (Function.update c (cls r.member) (r.cell (c (cls r.member))).1,
      (r.cell (c (cls r.member))).2)
  else (c, [])

/-- A request on a list. -/
def serve : Ask α → List α → List α × List (α × Bool)
  | put a, l =>
    if ok a = true then
      if ∀ b ∈ l, cls b ≠ cls a then (l ++ [a], [(a, true)]) else (l, [(a, false)])
    else (l, [])
  | take a, l => if ok a = true ∧ a ∈ l then (l.filter (· ≠ a), [(a, false)]) else (l, [])

variable {ok : α → Bool} {cls : α → κ} {l : List α} {a : α}

theorem cell_take_self : (take a).cell (some a) = (none, [(a, false)]) := if_pos rfl

theorem cell_take_of_ne {c : Option α} (h : c ≠ some a) : (take a).cell c = (c, []) := if_neg h

theorem apply_of_ok {r : Ask α} (hok : ok r.member = true) (c : κ → Option α) :
    r.apply ok cls c = (Function.update c (cls r.member) (r.cell (c (cls r.member))).1,
      (r.cell (c (cls r.member))).2) := if_pos hok

theorem apply_of_not_ok {r : Ask α} (hok : ok r.member ≠ true) (c : κ → Option α) :
    r.apply ok cls c = (c, []) := if_neg hok

theorem serve_put_free (hok : ok a = true) (h : ∀ b ∈ l, cls b ≠ cls a) :
    (put a).serve ok cls l = (l ++ [a], [(a, true)]) := by rw [serve, if_pos hok, if_pos h]

theorem serve_put_taken (hok : ok a = true) (h : ¬ ∀ b ∈ l, cls b ≠ cls a) :
    (put a).serve ok cls l = (l, [(a, false)]) := by rw [serve, if_pos hok, if_neg h]

theorem serve_take_mem (hok : ok a = true) (h : a ∈ l) :
    (take a).serve ok cls l = (l.filter (· ≠ a), [(a, false)]) := if_pos ⟨hok, h⟩

theorem serve_take_notMem (h : a ∉ l) : (take a).serve ok cls l = (l, []) :=
  if_neg fun hmem => h hmem.2

theorem serve_of_not_ok {r : Ask α} (hok : ok r.member ≠ true) : r.serve ok cls l = (l, []) := by
  cases r with
  | put a => exact if_neg hok
  | take a => exact if_neg fun hmem => hok hmem.1

theorem exclusive_serve (h : Exclusive cls l) (r : Ask α) : Exclusive cls (r.serve ok cls l).1 := by
  by_cases hok : ok r.member = true
  · cases r with
    | put a =>
      rw [member] at hok
      by_cases hfree : ∀ b ∈ l, cls b ≠ cls a
      · rw [serve_put_free hok hfree]
        exact exclusive_concat.mpr ⟨h, hfree⟩
      · rwa [serve_put_taken hok hfree]
    | take a =>
      rw [member] at hok
      by_cases ha : a ∈ l
      · rw [serve_take_mem hok ha]
        exact h.sublist List.filter_sublist
      · rwa [serve_take_notMem ha]
  · rwa [serve_of_not_ok hok]

/-! ### The list serves as its cells do -/

/-- A member taken out leaves the cell of its class empty. -/
theorem cells_filter {a : α} (h : Exclusive cls l) (ha : a ∈ l) :
    cells cls (l.filter (· ≠ a)) = Function.update (cells cls l) (cls a) none := by
  funext k
  refine Option.ext fun b => ?_
  rw [cells_eq_some (h.sublist List.filter_sublist), Function.update_apply]
  simp only [List.mem_filter, decide_eq_true_eq]
  by_cases hk : k = cls a
  · subst hk
    simp only [if_pos, reduceCtorEq, iff_false]
    rintro ⟨⟨hb, hne⟩, hcls⟩
    exact hne (h.eq_of_cls hb ha hcls)
  · rw [if_neg hk, cells_eq_some h]
    constructor
    · rintro ⟨⟨hb, -⟩, hcls⟩
      exact ⟨hb, hcls⟩
    · rintro ⟨hb, rfl⟩
      exact ⟨⟨hb, fun he => hk (congrArg cls he)⟩, rfl⟩

/-- **An exclusive list serves a request as its cells do.** -/
theorem cells_serve (h : Exclusive cls l) (r : Ask α) :
    (cells cls (r.serve ok cls l).1, (r.serve ok cls l).2) = r.apply ok cls (cells cls l) := by
  by_cases hok : ok r.member = true
  · rw [apply_of_ok hok]
    cases r with
    | put a =>
      rw [member] at hok
      by_cases hfree : ∀ b ∈ l, cls b ≠ cls a
      · have hcell : cells cls l (cls a) = none := cells_eq_none.mpr hfree
        rw [serve_put_free hok hfree, cells_concat h hfree, member, hcell, cell]
      · obtain ⟨b, hb⟩ : ∃ b, cells cls l (cls a) = some b :=
          Option.ne_none_iff_exists'.mp fun hnone => hfree (cells_eq_none.mp hnone)
        rw [serve_put_taken hok hfree, member, hb, cell, ← hb, Function.update_eq_self]
    | take a =>
      rw [member] at hok
      by_cases ha : a ∈ l
      · have hcell : cells cls l (cls a) = some a := (cells_eq_some h).mpr ⟨ha, rfl⟩
        rw [serve_take_mem hok ha, cells_filter h ha, member, hcell, cell_take_self]
      · have hcell : cells cls l (cls a) ≠ some a := fun hc => ha ((cells_eq_some h).mp hc).1
        rw [serve_take_notMem ha, member, cell_take_of_ne hcell, Function.update_eq_self]
  · rw [apply_of_not_ok hok, serve_of_not_ok hok]

/-! ### Requests of different classes commute -/

/-- **On the cells, requests of different classes commute**: each finds its own cell as it would
have without the other. -/
theorem apply_comm {r r' : Ask α}
    (hne : ¬ (ok r.member = true ∧ ok r'.member = true ∧ cls r.member = cls r'.member))
    (c : κ → Option α) :
    (r'.apply ok cls (r.apply ok cls c).1).1 = (r.apply ok cls (r'.apply ok cls c).1).1 ∧
      (r.apply ok cls (r'.apply ok cls c).1).2 = (r.apply ok cls c).2 ∧
      (r'.apply ok cls (r.apply ok cls c).1).2 = (r'.apply ok cls c).2 := by
  by_cases hok : ok r.member = true
  · by_cases hok' : ok r'.member = true
    · have hcls : cls r.member ≠ cls r'.member := fun he => hne ⟨hok, hok', he⟩
      simp only [apply_of_ok hok, apply_of_ok hok', Function.update_of_ne hcls,
        Function.update_of_ne hcls.symm, and_true]
      exact Function.update_comm hcls _ _ _
    · simp only [apply_of_not_ok hok', and_self]
  · simp only [apply_of_not_ok hok, and_self]

/-- **On an exclusive list, requests of different classes commute** up to the order of the list. -/
theorem serve_comm (h : Exclusive cls l) {r r' : Ask α}
    (hne : ¬ (ok r.member = true ∧ ok r'.member = true ∧ cls r.member = cls r'.member)) :
    (r'.serve ok cls (r.serve ok cls l).1).1.Perm (r.serve ok cls (r'.serve ok cls l).1).1 ∧
      (r.serve ok cls (r'.serve ok cls l).1).2 = (r.serve ok cls l).2 ∧
      (r'.serve ok cls (r.serve ok cls l).1).2 = (r'.serve ok cls l).2 := by
  have hr : Exclusive cls (r.serve ok cls l).1 := exclusive_serve h r
  have hr' : Exclusive cls (r'.serve ok cls l).1 := exclusive_serve h r'
  obtain ⟨hcell, hans, hans'⟩ := apply_comm hne (cells cls l)
  rw [← cells_serve h r, ← cells_serve h r'] at hcell hans hans'
  rw [← cells_serve hr r', ← cells_serve hr' r] at hcell
  rw [← cells_serve hr' r] at hans
  rw [← cells_serve hr r'] at hans'
  exact ⟨perm_of_cells (exclusive_serve hr r') (exclusive_serve hr' r) hcell, hans, hans'⟩

end Ask

/-! ## Putting in a list -/

section ServeAll

variable [DecidableEq α] [DecidableEq κ] {ok : α → Bool} {cls : α → κ}

/-- Requests one after the other, with the answers in order. -/
def serveAll (ok : α → Bool) (cls : α → κ) : List (Ask α) → List α → List α × List (α × Bool)
  | [], l => (l, [])
  | r :: rs, l =>
    ((serveAll ok cls rs (r.serve ok cls l).1).1,
      (r.serve ok cls l).2 ++ (serveAll ok cls rs (r.serve ok cls l).1).2)

theorem serveAll_append (rs' : List (Ask α)) : ∀ (rs : List (Ask α)) (l : List α),
    serveAll ok cls (rs ++ rs') l = ((serveAll ok cls rs' (serveAll ok cls rs l).1).1,
      (serveAll ok cls rs l).2 ++ (serveAll ok cls rs' (serveAll ok cls rs l).1).2)
  | [], l => by simp [serveAll]
  | q :: rs, l => by
    rw [List.cons_append, serveAll, serveAll_append rs' rs, serveAll, List.append_assoc]

theorem serveAll_concat (r : Ask α) (rs : List (Ask α)) (l : List α) :
    serveAll ok cls (rs ++ [r]) l = ((r.serve ok cls (serveAll ok cls rs l).1).1,
      (serveAll ok cls rs l).2 ++ (r.serve ok cls (serveAll ok cls rs l).1).2) := by
  rw [serveAll_append, serveAll, serveAll, List.append_nil]

end ServeAll

/-- The entry `e.1` at index `e.2` of `l` is `ok`, and no `ok` entry before it is of its class. -/
def FirstAt (ok : α → Bool) (cls : α → κ) (l : List α) (e : α × ℕ) : Prop :=
  ok e.1 = true ∧ ∀ b ∈ l.take e.2, ok b = true → cls b ≠ cls e.1

instance (ok : α → Bool) (cls : α → κ) [DecidableEq κ] (l : List α) :
    DecidablePred (FirstAt ok cls l) := fun _ => inferInstanceAs (Decidable (_ ∧ _))

section FirstAt

variable {ok : α → Bool} {cls : α → κ} {l : List α}

/-- What comes after an entry is no matter to it. -/
theorem firstAt_append {l' : List α} {e : α × ℕ} (he : e ∈ l.zipIdx) :
    FirstAt ok cls (l ++ l') e ↔ FirstAt ok cls l e := by
  have hle : e.2 ≤ l.length := by
    have := (List.mem_zipIdx he).2.1
    omega
  rw [FirstAt, FirstAt, List.take_append_of_le_length hle]

theorem firstAt_last {a : α} : FirstAt ok cls (l ++ [a]) (a, l.length) ↔
    ok a = true ∧ ∀ b ∈ l, ok b = true → cls b ≠ cls a := by rw [FirstAt, List.take_left]

end FirstAt

variable [DecidableEq κ] {ok : α → Bool} {cls : α → κ}

/-- The first `ok` entry of each class, in order. -/
def firsts (ok : α → Bool) (cls : α → κ) (l : List α) : List α :=
  (l.zipIdx.filter fun e => FirstAt ok cls l e).map Prod.fst

/-- The `ok` entries in order, each with whether it is the first of its class. -/
def marks (ok : α → Bool) (cls : α → κ) (l : List α) : List (α × Bool) :=
  (l.zipIdx.filter fun e => ok e.1).map fun e => (e.1, decide (FirstAt ok cls l e))

theorem firsts_concat (l : List α) (a : α) : firsts ok cls (l ++ [a]) =
    firsts ok cls l ++ if FirstAt ok cls (l ++ [a]) (a, l.length) then [a] else [] := by
  have hold : (l.zipIdx.filter fun e => FirstAt ok cls (l ++ [a]) e)
      = l.zipIdx.filter fun e => FirstAt ok cls l e :=
    List.filter_congr fun e he => decide_eq_decide.mpr (firstAt_append he)
  rw [firsts, firsts, List.zipIdx_append, List.filter_append, List.map_append, hold,
    Nat.zero_add, List.zipIdx_singleton, List.filter_singleton]
  by_cases hfirst : FirstAt ok cls (l ++ [a]) (a, l.length) <;> simp [hfirst]

theorem marks_concat (l : List α) (a : α) : marks ok cls (l ++ [a]) = marks ok cls l ++
    if ok a = true then [(a, decide (FirstAt ok cls (l ++ [a]) (a, l.length)))] else [] := by
  have hold : ((l.zipIdx.filter fun e => ok e.1).map
        fun e => (e.1, decide (FirstAt ok cls (l ++ [a]) e)))
      = (l.zipIdx.filter fun e => ok e.1).map fun e => (e.1, decide (FirstAt ok cls l e)) :=
    List.map_congr_left fun e he => congrArg (Prod.mk e.1)
      (decide_eq_decide.mpr (firstAt_append (List.mem_of_mem_filter he)))
  rw [marks, marks, List.zipIdx_append, List.filter_append, List.map_append, hold, Nat.zero_add,
    List.zipIdx_singleton, List.filter_singleton]
  by_cases hok : ok a = true <;> simp [hok]

/-- **The firsts leave a class free exactly when no entry counts for it.** -/
theorem free_firsts (k : κ) (l : List α) :
    (∀ b ∈ firsts ok cls l, cls b ≠ k) ↔ ∀ b ∈ l, ok b = true → cls b ≠ k := by
  induction l using List.reverseRecOn with
  | nil => simp [firsts]
  | append_singleton l a ih =>
    rw [firsts_concat]
    simp only [List.forall_mem_append, ih, List.forall_mem_singleton]
    refine and_congr_right fun hfree => ?_
    split
    · rename_i hfirst
      simp [(firstAt_last.mp hfirst).1]
    · rename_i hnot
      -- an entry that counts and is not the first of its class is of a class taken before it
      simp only [List.not_mem_nil, false_implies, implies_true, true_iff]
      rintro hok rfl
      exact hnot (firstAt_last.mpr ⟨hok, hfree⟩)

/-- **Putting in a list keeps the first of each class**, and answers each entry that counts. -/
theorem serveAll_put [DecidableEq α] (l : List α) :
    serveAll ok cls (l.map .put) [] = (firsts ok cls l, marks ok cls l) := by
  induction l using List.reverseRecOn with
  | nil => rfl
  | append_singleton l a ih =>
    rw [List.map_append, List.map_singleton, serveAll_concat, ih, firsts_concat, marks_concat]
    by_cases hok : ok a = true
    · by_cases hfree : ∀ b ∈ firsts ok cls l, cls b ≠ cls a
      · have hfirst : FirstAt ok cls (l ++ [a]) (a, l.length) :=
          firstAt_last.mpr ⟨hok, (free_firsts _ l).mp hfree⟩
        rw [Ask.serve_put_free hok hfree, if_pos hfirst, if_pos hok, decide_eq_true hfirst]
      · have hnot : ¬ FirstAt ok cls (l ++ [a]) (a, l.length) := fun hfirst =>
          hfree ((free_firsts _ l).mpr (firstAt_last.mp hfirst).2)
        rw [Ask.serve_put_taken hok hfree, if_neg hnot, if_pos hok, decide_eq_false hnot,
          List.append_nil]
    · have hnot : ¬ FirstAt ok cls (l ++ [a]) (a, l.length) := fun hfirst => hok hfirst.1
      rw [Ask.serve_of_not_ok (r := .put a) hok, if_neg hnot, if_neg hok, List.append_nil,
        List.append_nil]

theorem mem_firsts {l : List α} {a : α} (ha : a ∈ firsts ok cls l) : ok a = true ∧ a ∈ l := by
  obtain ⟨e, he, rfl⟩ := List.mem_map.mp ha
  obtain ⟨hmem, hfirst⟩ := List.mem_filter.mp he
  exact ⟨(of_decide_eq_true hfirst).1, List.fst_mem_of_mem_zipIdx hmem⟩

/-- **The last mark of an entry is `true` exactly if it is kept and comes once**: where it comes
again, it finds itself in the way. -/
theorem latest_marks [DecidableEq α] (a : α) (l : List α) :
    latest false a (marks ok cls l) = true ↔ a ∈ firsts ok cls l ∧ l.count a = 1 := by
  induction l using List.reverseRecOn with
  | nil => simp [marks]
  | append_singleton l b ih =>
    rw [marks_concat, firsts_concat, latest_append, List.count_append]
    by_cases hab : b = a
    · subst hab
      by_cases hfirst : FirstAt ok cls (l ++ [b]) (b, l.length)
      · have hb : b ∉ l := fun hb => (firstAt_last.mp hfirst).2 b hb hfirst.1 rfl
        simp [hfirst, hfirst.1, List.count_eq_zero.mpr hb]
      · -- neither: kept, it would have come before
        have hnot : ¬ (b ∈ firsts ok cls l ∧ l.count b + 1 = 1) := fun hkept =>
          List.count_eq_zero.mp (Nat.succ.inj hkept.2) (mem_firsts hkept.1).2
        have hlatest : latest (latest false b (marks ok cls l)) b
            (if ok b = true then [(b, decide (FirstAt ok cls (l ++ [b]) (b, l.length)))] else [])
              ≠ true := by
          by_cases hok : ok b = true
          · simp [hok, hfirst]
          · rw [if_neg hok, latest_nil, Ne, ih]
            exact fun hmem => hok (mem_firsts hmem.1).1
        exact iff_of_false hlatest (by simpa [hfirst] using hnot)
    · have hmark : latest (latest false a (marks ok cls l)) a
          (if ok b = true then [(b, decide (FirstAt ok cls (l ++ [b]) (b, l.length)))] else [])
            = latest false a (marks ok cls l) := by
        by_cases hok : ok b = true <;> simp [hok, hab]
      rw [hmark, ih]
      split <;> simp [hab, Ne.symm hab]

/-! ## Class by class -/

namespace Ask

variable [DecidableEq α] {k : κ} {l : List α}

/-- Requests on one cell, with the answers in order. -/
def cellAll : List (Ask α) → Option α → Option α × List (α × Bool)
  | [], c => (c, [])
  | r :: rs, c => ((cellAll rs (r.cell c).1).1, (r.cell c).2 ++ (cellAll rs (r.cell c).1).2)

/-- The requests that count for a class, in order. -/
def ofClass (ok : α → Bool) (cls : α → κ) (k : κ) (rs : List (Ask α)) : List (Ask α) :=
  rs.filter fun r => ok r.member = true ∧ cls r.member = k

/-- The answers for a class, in order. -/
def answersOf (cls : α → κ) (k : κ) (out : List (α × Bool)) : List (α × Bool) :=
  out.filter fun a => cls a.1 = k

omit [DecidableEq α] in
theorem answersOf_append (out out' : List (α × Bool)) :
    answersOf cls k (out ++ out') = answersOf cls k out ++ answersOf cls k out' :=
  List.filter_append _ _

/-- A request is answered under its own name. -/
theorem eq_member_of_mem_cell {r : Ask α} {c : Option α} {a : α × Bool} (ha : a ∈ (r.cell c).2) :
    a.1 = r.member := by
  cases r with
  | put b => cases c <;> (obtain rfl := List.mem_singleton.mp ha; rfl)
  | take b =>
    rw [cell] at ha
    split at ha
    · obtain rfl := List.mem_singleton.mp ha
      rfl
    · simp at ha

/-- **A class is served by its own requests**: of a list of requests, its cell and its answers are
what the requests for it make of that cell. -/
theorem cells_serveAll (k : κ) : ∀ (rs : List (Ask α)) {l : List α}, Exclusive cls l →
    (cells cls (serveAll ok cls rs l).1 k, answersOf cls k (serveAll ok cls rs l).2)
      = cellAll (ofClass ok cls k rs) (cells cls l k)
  | [], l, _ => rfl
  | r :: rs, l, h => by
    have ih := cells_serveAll k rs
      (show Exclusive cls (r.serve ok cls l).1 from exclusive_serve h r)
    have hserve : (cells cls (r.serve ok cls l).1, (r.serve ok cls l).2)
        = r.apply ok cls (cells cls l) := cells_serve h r
    rw [serveAll, answersOf_append]
    by_cases hok : ok r.member = true
    · rw [apply_of_ok hok] at hserve
      obtain ⟨hcell, hans⟩ := Prod.mk.inj hserve
      rw [hans]
      by_cases hk : cls r.member = k
      · have hrs : ofClass ok cls k (r :: rs) = r :: ofClass ok cls k rs :=
          List.filter_cons_of_pos (by simp [hok, hk])
        have hown : answersOf cls k (r.cell (cells cls l k)).2 = (r.cell (cells cls l k)).2 :=
          List.filter_eq_self.mpr fun a ha => by simp [eq_member_of_mem_cell ha, hk]
        rw [hcell, hk, Function.update_self] at ih
        rw [hk, hown, hrs, cellAll, ← ih]
      · have hrs : ofClass ok cls k (r :: rs) = ofClass ok cls k rs :=
          List.filter_cons_of_neg (by simp [hk])
        have hother : answersOf cls k (r.cell (cells cls l (cls r.member))).2 = [] :=
          List.filter_eq_nil_iff.mpr fun a ha => by simp [eq_member_of_mem_cell ha, hk]
        rw [hcell, Function.update_of_ne (Ne.symm hk)] at ih
        rw [hother, List.nil_append, hrs, ← ih]
    · have hrs : ofClass ok cls k (r :: rs) = ofClass ok cls k rs :=
        List.filter_cons_of_neg (by simp [hok])
      rw [apply_of_not_ok hok] at hserve
      obtain ⟨hcell, hans⟩ := Prod.mk.inj hserve
      rw [hcell] at ih
      rw [hans, hrs, ← ih]
      rfl

theorem exclusive_serveAll : ∀ (rs : List (Ask α)) {l : List α}, Exclusive cls l →
    Exclusive cls (serveAll ok cls rs l).1
  | [], _, h => h
  | r :: rs, _, h => exclusive_serveAll rs (exclusive_serve h r)

/-- **Lists of requests that agree on every class do the same**, up to the order of the list. -/
theorem perm_of_ofClass {rs rs' : List (Ask α)} (h : Exclusive cls l)
    (hsame : ∀ k, ofClass ok cls k rs = ofClass ok cls k rs') :
    (serveAll ok cls rs l).1.Perm (serveAll ok cls rs' l).1 ∧
      ∀ k, answersOf cls k (serveAll ok cls rs l).2
        = answersOf cls k (serveAll ok cls rs' l).2 := by
  have hboth : ∀ k, (cells cls (serveAll ok cls rs l).1 k, answersOf cls k (serveAll ok cls rs l).2)
      = (cells cls (serveAll ok cls rs' l).1 k, answersOf cls k (serveAll ok cls rs' l).2) :=
    fun k => by rw [cells_serveAll k rs h, cells_serveAll k rs' h, hsame k]
  exact ⟨perm_of_cells (exclusive_serveAll rs h) (exclusive_serveAll rs' h)
    (funext fun k => congrArg Prod.fst (hboth k)), fun k => congrArg Prod.snd (hboth k)⟩

end Ask

end Machinery
