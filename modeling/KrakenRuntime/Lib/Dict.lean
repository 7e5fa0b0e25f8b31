import Mathlib.Data.List.Nodup
import Mathlib.Algebra.Order.BigOperators.Group.List
import Mathlib.Algebra.Order.Ring.Nat

/- An insertion-ordered dictionary. A key occurs once, by construction; a new key goes
   to the end, an update keeps the key where it is, and removal closes the gap. -/
structure Dict (κ ν : Type) where
  items : List (κ × ν)
  nodup : (items.map Prod.fst).Nodup
  deriving DecidableEq

namespace Dict
variable {κ ν : Type} [DecidableEq κ]

def empty : Dict κ ν := ⟨[], List.nodup_nil⟩

def lookup (k : κ) : List (κ × ν) → Option ν
  | [] => none
  | e :: rest => if e.1 = k then some e.2 else lookup k rest

def get? (d : Dict κ ν) (k : κ) : Option ν := lookup k d.items

def modify (d : Dict κ ν) (k : κ) (f : ν → ν) : Dict κ ν where
  items := d.items.map fun e => if e.1 = k then (e.1, f e.2) else e
  nodup := by
    have same : ((d.items.map fun e => if e.1 = k then (e.1, f e.2) else e).map Prod.fst) =
        d.items.map Prod.fst := by
      rw [List.map_map]
      refine List.map_congr_left ?_
      intro e _
      simp only [Function.comp_apply]
      split <;> rfl
    rw [same]
    exact d.nodup

def pop (d : Dict κ ν) (k : κ) : Dict κ ν where
  items := d.items.filter fun e => decide (e.1 ≠ k)
  nodup := d.nodup.sublist (List.Sublist.map _ List.filter_sublist)

theorem lookup_eq_none_iff {k : κ} {items : List (κ × ν)} :
    lookup k items = none ↔ k ∉ items.map Prod.fst := by
  induction items with
  | nil => simp [lookup]
  | cons e rest ih =>
    simp only [lookup, List.map_cons, List.mem_cons, not_or]
    split
    · rename_i same
      simp [same]
    · rename_i ne
      rw [ih]
      exact ⟨fun h => ⟨fun eq => ne eq.symm, h⟩, fun h => h.2⟩

/-- Insert a key that is not there yet; a key that is there keeps its value. -/
def setDefault (d : Dict κ ν) (k : κ) (v : ν) : Dict κ ν :=
  if h : lookup k d.items = none then
    { items := d.items ++ [(k, v)]
      nodup := by
        rw [List.map_append, List.nodup_append]
        refine ⟨d.nodup, by simp, ?_⟩
        intro a ha b hb eq
        simp only [List.map_cons, List.map_nil, List.mem_singleton] at hb
        subst b a
        exact lookup_eq_none_iff.mp h ha }
  else d

@[simp] theorem get?_empty (k : κ) : (empty : Dict κ ν).get? k = none := rfl

theorem lookup_map_modify (k j : κ) (f : ν → ν) (items : List (κ × ν)) :
    lookup j (items.map fun e => if e.1 = k then (e.1, f e.2) else e) =
      if j = k then (lookup j items).map f else lookup j items := by
  induction items with
  | nil => simp [lookup]
  | cons e rest ih =>
    by_cases hk : e.1 = k <;> by_cases hj : e.1 = j <;> simp_all [lookup]

theorem get?_modify (d : Dict κ ν) (k j : κ) (f : ν → ν) :
    (d.modify k f).get? j = if j = k then (d.get? j).map f else d.get? j :=
  lookup_map_modify k j f d.items

@[simp] theorem get?_modify_self (d : Dict κ ν) (k : κ) (f : ν → ν) :
    (d.modify k f).get? k = (d.get? k).map f := by
  simp [get?_modify]

@[simp] theorem get?_modify_ne (d : Dict κ ν) {k j : κ} (f : ν → ν) (ne : j ≠ k) :
    (d.modify k f).get? j = d.get? j := by
  simp [get?_modify, ne]

theorem isSome_get?_modify (d : Dict κ ν) (k j : κ) (f : ν → ν) :
    ((d.modify k f).get? j).isSome = (d.get? j).isSome := by
  rw [get?_modify]
  split
  · exact Option.isSome_map
  · rfl

theorem lookup_filter_ne (k j : κ) (items : List (κ × ν)) :
    lookup j (items.filter fun e => decide (e.1 ≠ k)) =
      if j = k then none else lookup j items := by
  induction items with
  | nil => simp [lookup]
  | cons e rest ih =>
    by_cases hk : e.1 = k <;> by_cases hj : e.1 = j <;> simp_all [lookup]

theorem get?_pop (d : Dict κ ν) (k j : κ) :
    (d.pop k).get? j = if j = k then none else d.get? j :=
  lookup_filter_ne k j d.items

theorem lookup_append_single (k j : κ) (v : ν) (items : List (κ × ν)) :
    lookup j (items ++ [(k, v)]) =
      (lookup j items).or (if k = j then some v else none) := by
  induction items with
  | nil => simp [lookup]
  | cons e rest ih =>
    simp only [List.cons_append, lookup]
    split
    · rfl
    · exact ih

theorem get?_setDefault (d : Dict κ ν) (k j : κ) (v : ν) :
    (d.setDefault k v).get? j = if j = k then some ((d.get? k).getD v) else d.get? j := by
  unfold setDefault get?
  split
  · rename_i absent
    rw [lookup_append_single]
    by_cases hj : j = k
    · subst j; simp [absent]
    · simp [hj, Ne.symm hj]
  · rename_i present
    by_cases hj : j = k
    · subst j
      obtain ⟨w, hw⟩ := Option.ne_none_iff_exists'.mp present
      simp [hw]
    · simp [hj]

theorem setDefault_of_present (d : Dict κ ν) {k : κ} (v : ν) {w : ν} (present : d.get? k = some w) :
    d.setDefault k v = d := by
  have there : lookup k d.items ≠ none := by
    intro absent
    rw [get?, absent] at present
    cases present
  unfold setDefault
  exact dif_neg there

theorem lookup_of_mem {k : κ} {v : ν} {items : List (κ × ν)}
    (nodup : (items.map Prod.fst).Nodup) (mem : (k, v) ∈ items) : lookup k items = some v := by
  induction items with
  | nil => simp at mem
  | cons e rest ih =>
    simp only [List.map_cons, List.nodup_cons] at nodup
    rcases List.mem_cons.mp mem with same | later
    · subst e; simp [lookup]
    · have ne : e.1 ≠ k := by
        intro eq
        exact nodup.1 (eq ▸ List.mem_map_of_mem (f := Prod.fst) later)
      simp [lookup, ne, ih nodup.2 later]

theorem mem_of_lookup {k : κ} {v : ν} {items : List (κ × ν)}
    (h : lookup k items = some v) : (k, v) ∈ items := by
  induction items with
  | nil => simp [lookup] at h
  | cons e rest ih =>
    simp only [lookup] at h
    split at h
    · rename_i same
      cases h
      subst k
      simp
    · exact List.mem_cons_of_mem _ (ih h)

theorem mem_items_iff (d : Dict κ ν) (k : κ) (v : ν) : (k, v) ∈ d.items ↔ d.get? k = some v :=
  ⟨lookup_of_mem d.nodup, mem_of_lookup⟩

def total (g : ν → ℕ) (d : Dict κ ν) : ℕ := (d.items.map fun e => g e.2).sum

theorem sum_map_modify {k : κ} {v : ν} (f : ν → ν) (g : ν → ℕ) {items : List (κ × ν)}
    (nodup : (items.map Prod.fst).Nodup) (present : lookup k items = some v) :
    ((items.map fun e => if e.1 = k then (e.1, f e.2) else e).map fun e => g e.2).sum + g v =
      (items.map fun e => g e.2).sum + g (f v) := by
  induction items with
  | nil => simp [lookup] at present
  | cons e rest ih =>
    simp only [List.map_cons, List.nodup_cons] at nodup
    by_cases here : e.1 = k
    · -- the key does not occur again, so the rest is left alone
      have untouched : (rest.map fun e => if e.1 = k then (e.1, f e.2) else e) = rest := by
        conv_rhs => rw [← List.map_id rest]
        apply List.map_congr_left
        intro e' mem
        have ne : e'.1 ≠ k := by
          intro eq
          apply nodup.1
          rw [here, ← eq]
          exact List.mem_map_of_mem mem
        simp [ne]
      simp only [lookup, here, ↓reduceIte, Option.some.injEq] at present
      subst v
      simp only [List.map_cons, List.sum_cons, here, ↓reduceIte, untouched]
      omega
    · have later : lookup k rest = some v := by simpa [lookup, here] using present
      have tail := ih nodup.2 later
      simp only [List.map_cons, List.sum_cons, here, ↓reduceIte]
      omega

theorem total_modify (d : Dict κ ν) {k : κ} {v : ν} (f : ν → ν) (g : ν → ℕ)
    (present : d.get? k = some v) :
    (d.modify k f).total g + g v = d.total g + g (f v) :=
  sum_map_modify f g d.nodup present

omit [DecidableEq κ] in
theorem total_mono (d : Dict κ ν) {g h : ν → ℕ} (le : ∀ v, g v ≤ h v) : d.total g ≤ d.total h :=
  List.sum_le_sum fun e _ => le e.2

omit [DecidableEq κ] in
theorem total_add (d : Dict κ ν) (g h : ν → ℕ) :
    d.total (fun v => g v + h v) = d.total g + d.total h := by
  simp only [total, List.sum_map_add]

theorem total_pop_le (d : Dict κ ν) (k : κ) (g : ν → ℕ) : (d.pop k).total g ≤ d.total g := by
  apply List.Sublist.sum_le_sum
  · exact List.Sublist.map _ List.filter_sublist
  · simp

omit [DecidableEq κ] in
@[simp] theorem total_empty (g : ν → ℕ) : (empty : Dict κ ν).total g = 0 := rfl

theorem modify_of_absent (d : Dict κ ν) {k : κ} (f : ν → ν) (absent : d.get? k = none) :
    d.modify k f = d := by
  have missing := lookup_eq_none_iff.mp absent
  have same : (d.items.map fun e => if e.1 = k then (e.1, f e.2) else e) = d.items := by
    conv_rhs => rw [← List.map_id d.items]
    apply List.map_congr_left
    intro e mem
    have ne : e.1 ≠ k := by
      intro eq
      exact missing (eq ▸ List.mem_map_of_mem mem)
    simp [ne]
  cases d
  simp only [modify, mk.injEq]
  exact same

theorem total_modify_of_eq (d : Dict κ ν) (k : κ) (f : ν → ν) (g : ν → ℕ)
    (same : ∀ v, g (f v) = g v) : (d.modify k f).total g = d.total g := by
  cases present : d.get? k with
  | none => rw [modify_of_absent d f present]
  | some v =>
    have moved := total_modify d f g present
    rw [same v] at moved
    omega

theorem sum_map_filter_ne (k : κ) (g : ν → ℕ) {items : List (κ × ν)}
    (nodup : (items.map Prod.fst).Nodup) :
    ((items.filter fun e => decide (e.1 ≠ k)).map fun e => g e.2).sum +
        ((lookup k items).map g).getD 0 =
      (items.map fun e => g e.2).sum := by
  induction items with
  | nil => simp [lookup]
  | cons e rest ih =>
    simp only [List.map_cons, List.nodup_cons] at nodup
    have tail := ih nodup.2
    by_cases here : e.1 = k
    · have later : lookup k rest = none := by
        rw [lookup_eq_none_iff, ← here]
        exact nodup.1
      simp only [later, Option.map_none, Option.getD_none] at tail
      rw [List.filter_cons_of_neg (by simp [here])]
      simp only [lookup, here, ↓reduceIte, Option.map_some, Option.getD_some, List.map_cons,
        List.sum_cons]
      omega
    · rw [List.filter_cons_of_pos (by simp [here])]
      simp only [lookup, here, ↓reduceIte, List.map_cons, List.sum_cons]
      omega

theorem total_pop (d : Dict κ ν) (k : κ) (g : ν → ℕ) :
    (d.pop k).total g + ((d.get? k).map g).getD 0 = d.total g :=
  sum_map_filter_ne k g d.nodup

theorem total_setDefault_of_absent (d : Dict κ ν) {k : κ} (v : ν) (g : ν → ℕ)
    (absent : d.get? k = none) : (d.setDefault k v).total g = d.total g + g v := by
  have missing : lookup k d.items = none := absent
  simp [setDefault, missing, total]

def insert (d : Dict κ ν) (k : κ) (v : ν) : Dict κ ν := (d.pop k).setDefault k v

theorem get?_insert (d : Dict κ ν) (k j : κ) (v : ν) :
    (d.insert k v).get? j = if j = k then some v else d.get? j := by
  by_cases same : j = k <;> simp [insert, get?_setDefault, get?_pop, same]

theorem total_insert (d : Dict κ ν) (k : κ) (v : ν) (g : ν → ℕ) :
    (d.insert k v).total g + ((d.get? k).map g).getD 0 = d.total g + g v := by
  have gone : (d.pop k).get? k = none := by simp [get?_pop]
  have added := total_setDefault_of_absent (d.pop k) v g gone
  have removed := total_pop d k g
  unfold insert
  omega

end Dict
