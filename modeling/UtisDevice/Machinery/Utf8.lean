import UtisDevice.Machinery.Runs

/-!
# Machinery/Utf8 — reading bytes as text

    utf8Chars 0 [E2, 82, AC, FF, 41] = ['€', '\uFFFD', 'A']

A byte at which no character starts is read as U+FFFD, and reading goes on behind it, so every list
of bytes is some text.  An ASCII byte is a character by itself and is part of no other one: text may
be cut there (`utf8Chars_append_cons`), before it is read or afterwards (`runs_utf8Chars`).
-/

namespace Machinery

/-- The characters of a list of bytes, its first `k` bytes already read. -/
def utf8Chars : ℕ → List UInt8 → List Char
  | _, [] => []
  | k + 1, _ :: bs => utf8Chars k bs
  | 0, b :: bs =>
    match (b :: bs).toByteArray.utf8DecodeChar? 0 with
    | some c => c :: utf8Chars (c.utf8Size - 1) bs
    | none => '\uFFFD' :: utf8Chars 0 bs

@[simp] theorem utf8Chars_nil (k : ℕ) : utf8Chars k [] = [] := by cases k <;> rfl

example : utf8Chars 0 [0xE2, 0x82, 0xAC, 0xFF, 0x41] = ['€', '\uFFFD', 'A'] := by decide

theorem utf8Chars_ne_nil (b : UInt8) (bs : List UInt8) : utf8Chars 0 (b :: bs) ≠ [] := by
  rw [utf8Chars]
  cases (b :: bs).toByteArray.utf8DecodeChar? 0 <;> exact List.cons_ne_nil _ _

/-! ## The standard library's decoder

On lists, and at ASCII bytes. -/

/-- **A character is decoded where its encoding stands.** -/
theorem utf8DecodeChar?_eq_some_iff {l : List UInt8} {c : Char} :
    l.toByteArray.utf8DecodeChar? 0 = some c ↔ String.utf8EncodeChar c <+: l := by
  constructor
  · intro h
    obtain ⟨rest, hrest⟩ := ByteArray.exists_of_utf8DecodeChar?_eq_some h
    refine ⟨rest.data.toList, ?_⟩
    have hlist := congrArg (fun b : ByteArray => b.data.toList) hrest
    simpa using hlist.symm
  · rintro ⟨rest, rfl⟩
    rw [List.toByteArray_append, ByteArray.utf8DecodeChar?_utf8EncodeChar_append]

theorem val_ofUInt8 (a : UInt8) : (Char.ofUInt8 a).val = a.toUInt32 := rfl

theorem utf8Size_ofUInt8 {a : UInt8} (ha : a < 0x80) : (Char.ofUInt8 a).utf8Size = 1 := by
  rw [Char.utf8Size_eq_one_iff, val_ofUInt8, UInt32.le_iff_toNat_le, UInt8.toNat_toUInt32]
  exact Nat.le_of_lt_succ (UInt8.lt_iff_toNat_lt.mp ha)

theorem utf8EncodeChar_ofUInt8 {a : UInt8} (ha : a < 0x80) :
    String.utf8EncodeChar (Char.ofUInt8 a) = [a] := by
  rw [String.utf8EncodeChar_eq_singleton (utf8Size_ofUInt8 ha), val_ofUInt8,
    UInt8.toUInt8_toUInt32]

/-- An ASCII character is decoded at its byte, and nowhere else. -/
theorem utf8DecodeChar?_eq_ofUInt8 {a : UInt8} (ha : a < 0x80) {b : UInt8} {l : List UInt8} :
    (b :: l).toByteArray.utf8DecodeChar? 0 = some (Char.ofUInt8 a) ↔ b = a := by
  rw [utf8DecodeChar?_eq_some_iff, utf8EncodeChar_ofUInt8 ha, List.cons_prefix_cons, eq_comm]
  simp

/-- An ASCII byte goes on with no character. -/
theorem utf8EncodeChar_append_ascii {a : UInt8} (ha : a < 0x80) {c : Char} {l l' : List UInt8}
    (h : String.utf8EncodeChar c = l ++ a :: l') : l = [] := by
  have hlen : l.length < (String.utf8EncodeChar c).length := by
    rw [h, List.length_append, List.length_cons]
    omega
  have hget : (String.utf8EncodeChar c)[l.length] = a := by simp [h]
  have hfirst : a.IsUTF8FirstByte := by
    have hzero := UInt8.isUTF8FirstByte_getElem_zero_utf8EncodeChar (c := Char.ofUInt8 a)
    simpa only [utf8EncodeChar_ofUInt8 ha, List.getElem_singleton] using hzero
  rw [← hget, UInt8.isUTF8FirstByte_getElem_utf8EncodeChar] at hfirst
  exact List.length_eq_zero_iff.mp hfirst

/-- What is decoded does not depend on what an ASCII byte keeps off. -/
theorem utf8DecodeChar?_append_ascii {a : UInt8} (ha : a < 0x80) {l : List UInt8} (hl : l ≠ [])
    (l' : List UInt8) :
    (l ++ a :: l').toByteArray.utf8DecodeChar? 0 = l.toByteArray.utf8DecodeChar? 0 := by
  ext c
  rw [utf8DecodeChar?_eq_some_iff, utf8DecodeChar?_eq_some_iff]
  refine ⟨fun h => ?_, fun h => h.trans (List.prefix_append l _)⟩
  rcases List.prefix_or_prefix_of_prefix h (List.prefix_append l _) with hshort | ⟨r, hr⟩
  · exact hshort
  · cases r with
    | nil => simp [← hr]
    | cons b r =>
      rw [← hr, List.prefix_append_right_inj, List.cons_prefix_cons] at h
      exact absurd (utf8EncodeChar_append_ascii ha (h.1 ▸ hr.symm)) hl

/-! ## Reading -/

/-- **Text may be cut at an ASCII byte.** -/
theorem utf8Chars_append_cons {a : UInt8} (ha : a < 0x80) (l' : List UInt8) :
    ∀ {k : ℕ} {l : List UInt8}, k ≤ l.length →
      utf8Chars k (l ++ a :: l') = utf8Chars k l ++ Char.ofUInt8 a :: utf8Chars 0 l'
  | 0, [], _ => by
    rw [List.nil_append, utf8Chars_nil, List.nil_append, utf8Chars,
      (utf8DecodeChar?_eq_ofUInt8 ha).mpr rfl]
    simp only [utf8Size_ofUInt8 ha]
  | k + 1, [], h => absurd h (by simp)
  | k + 1, _ :: l, h => by
    rw [List.cons_append, utf8Chars, utf8Chars]
    exact utf8Chars_append_cons ha l' (Nat.le_of_succ_le_succ h)
  | 0, b :: l, _ => by
    rw [List.cons_append, utf8Chars, utf8Chars, ← List.cons_append,
      utf8DecodeChar?_append_ascii ha (List.cons_ne_nil b l)]
    cases hc : (b :: l).toByteArray.utf8DecodeChar? 0 with
    | none => simp [utf8Chars_append_cons ha l' (Nat.zero_le l.length)]
    | some c =>
      have hsize : c.utf8Size - 1 ≤ l.length := by
        have := ByteArray.le_size_of_utf8DecodeChar?_eq_some hc
        simp at this
        omega
      simp [utf8Chars_append_cons ha l' hsize]

theorem ofUInt8_ne_replacement {a : UInt8} (ha : a < 0x80) : Char.ofUInt8 a ≠ '\uFFFD' := by
  intro h
  have hsize := utf8Size_ofUInt8 ha
  rw [h] at hsize
  exact absurd hsize (by decide)

/-- An ASCII character of the text is one of the bytes. -/
theorem mem_of_ofUInt8_mem {a : UInt8} (ha : a < 0x80) :
    ∀ {k : ℕ} {l : List UInt8}, Char.ofUInt8 a ∈ utf8Chars k l → a ∈ l
  | 0, [], h => by simp at h
  | k + 1, [], h => by simp at h
  | k + 1, _ :: l, h => List.mem_cons_of_mem _ (mem_of_ofUInt8_mem ha (k := k) h)
  | 0, b :: l, h => by
    rw [utf8Chars] at h
    cases hc : (b :: l).toByteArray.utf8DecodeChar? 0 with
    | none =>
      simp only [hc, List.mem_cons] at h
      rcases h with h | h
      · exact absurd h (ofUInt8_ne_replacement ha)
      · exact List.mem_cons_of_mem _ (mem_of_ofUInt8_mem ha h)
    | some c =>
      simp only [hc, List.mem_cons] at h
      rcases h with rfl | h
      · exact List.mem_cons.mpr (Or.inl ((utf8DecodeChar?_eq_ofUInt8 ha).mp hc).symm)
      · exact List.mem_cons_of_mem _ (mem_of_ofUInt8_mem ha h)

/-- **ASCII text is read from its own bytes only.** -/
theorem utf8Chars_eq_map_iff : ∀ {l t : List UInt8}, (∀ a ∈ t, a < 0x80) →
    (utf8Chars 0 l = t.map Char.ofUInt8 ↔ l = t)
  | [], t, _ => by simp [eq_comm]
  | b :: l, [], _ => by
    rw [utf8Chars]
    cases (b :: l).toByteArray.utf8DecodeChar? 0 <;> simp
  | b :: l, a :: t, h => by
    obtain ⟨ha, ht⟩ := List.forall_mem_cons.mp h
    rw [utf8Chars, List.map_cons, List.cons.injEq, ← utf8DecodeChar?_eq_ofUInt8 ha (l := l)]
    cases hc : (b :: l).toByteArray.utf8DecodeChar? 0 with
    | none => simp [(ofUInt8_ne_replacement ha).symm]
    | some c =>
      rw [List.cons.injEq, Option.some.injEq, and_congr_right_iff]
      rintro rfl
      rw [utf8Size_ofUInt8 ha, Nat.sub_self, utf8Chars_eq_map_iff ht]

/-- **Text is cut into runs at an ASCII character as its bytes are.** -/
theorem runs_utf8Chars {a : UInt8} (ha : a < 0x80) (l : List UInt8) :
    runs (· == Char.ofUInt8 a) (utf8Chars 0 l) = (runs (· == a) l).map (utf8Chars 0) := by
  by_cases hmem : a ∈ l
  · obtain ⟨s, t, rfl⟩ := List.append_of_mem hmem
    rw [utf8Chars_append_cons ha t (Nat.zero_le s.length),
      @runs_append_cons _ (· == Char.ofUInt8 a) _ (beq_self_eq_true _),
      @runs_append_cons _ (· == a) _ (beq_self_eq_true a), List.map_append,
      runs_utf8Chars ha s, runs_utf8Chars ha t]
  · cases l with
    | nil => rfl
    | cons b l =>
      have hchars : ∀ c ∈ utf8Chars 0 (b :: l), (c == Char.ofUInt8 a) = false := fun c hc =>
        beq_eq_false_iff_ne.mpr fun h => hmem (mem_of_ofUInt8_mem ha (h ▸ hc))
      have hbytes : ∀ c ∈ b :: l, (c == a) = false := fun c hc =>
        beq_eq_false_iff_ne.mpr fun h => hmem (h ▸ hc)
      rw [runs_eq_singleton hchars (utf8Chars_ne_nil b l),
        runs_eq_singleton hbytes (List.cons_ne_nil b l), List.map_singleton]
termination_by l.length
decreasing_by
  · subst_vars
    simp
  · subst_vars
    simp only [List.length_append, List.length_cons]
    omega

end Machinery
