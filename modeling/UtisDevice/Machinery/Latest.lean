import Mathlib.Data.List.Basic

/-!
# Machinery/Latest — a mirror fed by a log of writes

A *mirror* replays a log of writes `(k, b)`: what it shows for `k` is the last value written there
(`latest`).  The log reaches it through a FIFO channel, so at any moment it has replayed a prefix;
`latest_append` splits the log there, and `latest_eq_of_notMem` says the part still in the channel
matters only to the keys it writes.
-/

namespace Machinery

variable {κ β : Type*} [DecidableEq κ]

/-- The value last written to `k`, or `d` where nothing was. -/
def latest (d : β) (k : κ) : List (κ × β) → β
  | [] => d
  | w :: ws => latest (if w.1 = k then w.2 else d) k ws

@[simp] theorem latest_nil (d : β) (k : κ) : latest d k [] = d := rfl

@[simp] theorem latest_singleton (d : β) (k : κ) (w : κ × β) :
    latest d k [w] = if w.1 = k then w.2 else d := rfl

theorem latest_append (d : β) (k : κ) : ∀ ws vs : List (κ × β),
    latest d k (ws ++ vs) = latest (latest d k ws) k vs
  | [], _ => rfl
  | _ :: ws, vs => latest_append _ k ws vs

/-- The values written to `k`, in order. -/
def valuesOf (k : κ) (ws : List (κ × β)) : List β :=
  ws.filterMap fun w => if w.1 = k then some w.2 else none

theorem latest_eq_getLast? (k : κ) : ∀ (d : β) (ws : List (κ × β)),
    latest d k ws = (valuesOf k ws).getLast?.getD d
  | _, [] => rfl
  | d, w :: ws => by
    rw [latest, latest_eq_getLast? k _ ws, valuesOf, valuesOf, List.filterMap_cons]
    by_cases hk : w.1 = k
    · simp [hk, List.getLast?_cons]
    · simp [hk]

/-- Writes to other keys leave a key alone. -/
theorem latest_eq_of_notMem {d : β} {k : κ} : ∀ {ws : List (κ × β)}, (∀ b, (k, b) ∉ ws) →
    latest d k ws = d
  | [], _ => rfl
  | (k', b) :: ws, h => by
    have hne : k' ≠ k := fun hk => h b (by simp [hk])
    rw [latest, if_neg hne]
    exact latest_eq_of_notMem fun b hb => h b (List.mem_cons_of_mem _ hb)

/-- Leaving out writes to other keys makes no difference. -/
theorem latest_filter {k : κ} {p : κ × β → Bool} : ∀ (d : β) {ws : List (κ × β)},
    (∀ w ∈ ws, w.1 = k → p w = true) → latest d k (ws.filter p) = latest d k ws
  | _, [], _ => rfl
  | d, w :: ws, h => by
    obtain ⟨hw, hws⟩ := List.forall_mem_cons.mp h
    by_cases hp : p w = true
    · rw [List.filter_cons_of_pos hp, latest, latest, latest_filter _ hws]
    · rw [List.filter_cons_of_neg hp, latest, if_neg fun hk => hp (hw hk), latest_filter _ hws]

/-- **A value shown was written**, unless it is the default. -/
theorem mem_of_latest_ne {d : β} {k : κ} : ∀ {ws : List (κ × β)}, latest d k ws ≠ d →
    (k, latest d k ws) ∈ ws
  | [], h => absurd rfl h
  | (k', b) :: ws, h => by
    rw [latest] at h ⊢
    by_cases hk : k' = k
    · subst hk
      rw [if_pos rfl] at h ⊢
      by_cases hb : latest b k' ws = b
      · rw [hb]; exact List.mem_cons_self
      · exact List.mem_cons_of_mem _ (mem_of_latest_ne hb)
    · rw [if_neg hk] at h ⊢
      exact List.mem_cons_of_mem _ (mem_of_latest_ne h)

end Machinery
