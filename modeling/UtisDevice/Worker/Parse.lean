import UtisDevice.Machinery.Runs
import UtisDevice.Worker.Slots

/-!
# Worker/Parse — which replies `parseData` recognises

A reply is announced by its first byte or by its second field.  `classify` is that rule, with fields
ended by a space, CR or LF, as in the commands themselves; `parseData` splits at spaces only, and
wants two tokens before it looks at the first byte.  Which replies that leaves unrecognised depends
on where CR and LF stand in the first two runs between spaces (`parseData_eq_classify_iff`); a frame
whose second field is its last, CR LF behind it, is never recognised (`parseData_terminated`).

The bytes are read as `QString` reads them (`parseData_eq`); the rule is one for ASCII without NUL,
where every byte is a character by itself.
-/

namespace UtisDevice

open Machinery

/-! ## The code -/

/-- `QString::split(sep, Qt::SkipEmptyParts)`, at a character. -/
def splitSkipEmptyParts (s : String) (sep : Char) : List String :=
  (runs (· == sep) s.toList).map String.ofList

/-- Nothing calls it. -/
def UtisDeviceWorker.parseData (w : UtisDeviceWorker) : List Effect :=
  if w.dataGram.isEmpty then []
  else
    let data := toQString w.dataGram
    let dataList := splitSkipEmptyParts data ' '
    if dataList.length < 2 then []
    else if w.dataGram[0]? = some 0x3A then [.showMsg "气象信息"]
    else if dataList[1]? = some "02" then [.showMsg "路面信息"]
    else if dataList[1]? = some "03" then [.showMsg "能见度信息"]
    else []

/-! ## The rule

The formats of the command table, on the bytes. -/

/-- A space. -/
def isSpace (c : UInt8) : Bool := c == 0x20

/-- A space, a CR or a LF. -/
def isBlank (c : UInt8) : Bool := c == 0x20 || c == 0x0D || c == 0x0A

/-- The runs of bytes between spaces. -/
def tokens (b : QByteArray) : List QByteArray := runs isSpace b

/-- The runs of bytes between blanks. -/
def fields (b : QByteArray) : List QByteArray := runs isBlank b

/-- The reply a unit address announces. -/
def replyOf (address : Option QByteArray) : List Effect :=
  if address = some (bytes "02") then [.showMsg "路面信息"]
  else if address = some (bytes "03") then [.showMsg "能见度信息"]
  else []

/-- **What a reply is, by the frame formats of the commands.** -/
def classify (b : QByteArray) : List Effect :=
  if b.head? = some 0x3A then [.showMsg "气象信息"] else replyOf (fields b)[1]?

/-! ## Where splitting at spaces does no harm

Let `t` and `u` be the first two runs between spaces.  CR or LF at the end of `u` hide an address
there; inside `t` they make two fields of it, and `u` is not the second one any more. -/

/-- The address is one a reply is announced by. -/
def Announces (address : Option QByteArray) : Prop :=
  address = some (bytes "02") ∨ address = some (bytes "03")

/-- The same address, or none on either side. -/
def Alike (address address' : Option QByteArray) : Prop :=
  address = address' ∨ ¬ Announces address ∧ ¬ Announces address'

/-- Nothing but spaces. -/
def Spaces (b : QByteArray) : Prop := ∀ c ∈ b, c = 0x20

/-- Neither CR nor LF. -/
def Unended (b : QByteArray) : Prop := ∀ c ∈ b, c ≠ 0x0D ∧ c ≠ 0x0A

/-- **Where CR and LF do no harm.**  A weather reply needs something behind a space.  Any other
reply with one field in `t` must have neither CR nor LF in `u`, or no address as its next field;
where CR and LF leave `t` no field, or more than one, `u` has to be no address, or by chance the one
that stands second. -/
def Aligned (b : QByteArray) : Prop :=
  let t := firstRun isSpace b
  let rest := behindFirst isSpace b
  let u := firstRun isSpace rest
  if b.head? = some 0x3A then ¬ Spaces rest
  else if (fields t).length = 1 then Unended u ∨ ¬ Announces (fields rest)[0]?
  else if fields t = [] then Alike (some u) (fields rest)[1]?
  else Alike (some u) (fields t)[1]?

instance (address : Option QByteArray) : Decidable (Announces address) :=
  inferInstanceAs (Decidable (_ ∨ _))

instance (address address' : Option QByteArray) : Decidable (Alike address address') :=
  inferInstanceAs (Decidable (_ ∨ _))

instance (b : QByteArray) : Decidable (Spaces b) := List.decidableBAll _ b

instance (b : QByteArray) : Decidable (Unended b) := List.decidableBAll _ b

instance (b : QByteArray) : Decidable (Aligned b) :=
  inferInstanceAs (Decidable (ite _ _ _))

example : Aligned (bytes "M\r\n02 02") ∧ ¬ Aligned (bytes "M\r\n02 17") := by decide

/-! ## Strings and bytes

`parseData` looks at characters; splitting, counting and comparing them comes to the same on the
bytes that are read. -/

/-- **The string splits into the strings of the tokens.** -/
theorem splitSkipEmptyParts_toQString (b : QByteArray) :
    splitSkipEmptyParts (toQString b) ' '
      = (tokens (textOf b)).map fun t => String.ofList (utf8Chars 0 t) := by
  have hruns : runs (· == ' ') (utf8Chars 0 (textOf b))
      = (runs isSpace (textOf b)).map (utf8Chars 0) := runs_utf8Chars (a := 0x20) (by decide) _
  rw [splitSkipEmptyParts, toQString, String.toList_ofList, hruns, List.map_map]
  rfl

/-- An ASCII token is compared as its bytes. -/
theorem ofList_utf8Chars_eq_iff {s : String} (hs : Ascii (bytes s))
    (hread : String.ofList ((bytes s).map Char.ofUInt8) = s) {t : QByteArray} :
    String.ofList (utf8Chars 0 t) = s ↔ t = bytes s := by
  rw [← utf8Chars_eq_map_iff fun a ha => (hs a ha).2, ← String.ofList_inj, hread]

theorem replyOf_token (b : QByteArray) :
    (if (splitSkipEmptyParts (toQString b) ' ')[1]? = some "02" then [Effect.showMsg "路面信息"]
      else if (splitSkipEmptyParts (toQString b) ' ')[1]? = some "03" then [.showMsg "能见度信息"]
      else []) = replyOf (tokens (textOf b))[1]? := by
  have hroad : ∀ t, String.ofList (utf8Chars 0 t) = "02" ↔ t = bytes "02" := fun _ =>
    ofList_utf8Chars_eq_iff (by decide) rfl
  have hvisibility : ∀ t, String.ofList (utf8Chars 0 t) = "03" ↔ t = bytes "03" := fun _ =>
    ofList_utf8Chars_eq_iff (by decide) rfl
  rw [replyOf, splitSkipEmptyParts_toQString, List.getElem?_map]
  simp only [Option.map_eq_some_iff, hroad, hvisibility, exists_eq_right]

/-- **All `parseData` does**, on the bytes that are read. -/
theorem parseData_eq (w : UtisDeviceWorker) : w.parseData =
    if w.dataGram.head? = some 0x3A then
      if 2 ≤ (tokens (textOf w.dataGram)).length then [.showMsg "气象信息"] else []
    else replyOf (tokens (textOf w.dataGram))[1]? := by
  rw [← replyOf_token, UtisDeviceWorker.parseData, ← List.head?_eq_getElem?]
  have hlen : (splitSkipEmptyParts (toQString w.dataGram) ' ').length
      = (tokens (textOf w.dataGram)).length := by
    rw [splitSkipEmptyParts_toQString, List.length_map]
  dsimp only
  rw [hlen]
  by_cases hshort : (tokens (textOf w.dataGram)).length < 2
  · have hnone : (splitSkipEmptyParts (toQString w.dataGram) ' ')[1]? = none :=
      List.getElem?_eq_none (by omega)
    simp [hshort, hnone, Nat.not_le.mpr hshort]
  · have hne : w.dataGram.isEmpty = false := by
      cases hb : w.dataGram with
      | nil => simp [hb, tokens, textOf, skipBom] at hshort
      | cons c b => rfl
    simp [hshort, hne, Nat.not_lt.mp hshort]

/-! ## Where they agree

Both verdicts are of an address, the second token's and the second field's; so the question is when
these two announce alike. -/

theorem replyOf_eq_nil {address : Option QByteArray} : replyOf address = [] ↔
    ¬ Announces address := by
  rw [replyOf, Announces]
  split
  · rename_i hroad
    simp [hroad]
  · rename_i hroad
    split
    · rename_i hvisibility
      simp [hvisibility]
    · rename_i hvisibility
      simp [hroad, hvisibility]

/-- Replies tell addresses apart, but for those that announce nothing. -/
theorem replyOf_eq_iff {a a' : Option QByteArray} : replyOf a = replyOf a' ↔ Alike a a' := by
  constructor
  · intro h
    by_cases ha : Announces a
    · have ha' : Announces a' := by
        by_contra hnone
        rw [replyOf_eq_nil.mpr hnone, replyOf_eq_nil] at h
        exact h ha
      refine Or.inl ?_
      rcases ha with rfl | rfl <;> rcases ha' with rfl | rfl <;>
        first | rfl | exact absurd h (by decide)
    · refine Or.inr ⟨ha, ?_⟩
      rwa [replyOf_eq_nil.mpr ha, eq_comm, replyOf_eq_nil] at h
  · rintro (rfl | ⟨ha, ha'⟩)
    · rfl
    · rw [replyOf_eq_nil.mpr ha, replyOf_eq_nil.mpr ha']

theorem isBlank_eq_false {c : UInt8} :
    isBlank c = false ↔ isSpace c = false ∧ c ≠ 0x0D ∧ c ≠ 0x0A := by
  simp [isBlank, isSpace, and_assoc]

theorem isBlank_of_isSpace (c : UInt8) (h : isSpace c = true) : isBlank c = true := by
  by_contra hc
  rw [Bool.not_eq_true, isBlank_eq_false, h] at hc
  exact Bool.noConfusion hc.1

/-- What ends a frame is no part of an address. -/
theorem not_announces_of_mem {u : QByteArray} {c : UInt8} (hc : c ∈ u)
    (hend : c = 0x0D ∨ c = 0x0A) : ¬ Announces (some u) := by
  rintro (h | h) <;>
  · rw [Option.some.inj h] at hc
    rcases hend with rfl | rfl <;> exact absurd hc (by decide)

/-- The second token announces what the second run does, which is empty where there is none. -/
theorem replyOf_second (b : QByteArray) : replyOf (tokens b)[1]? =
    replyOf (some (firstRun isSpace (behindFirst isSpace b))) := by
  have hempty : replyOf (some []) = replyOf none := by decide
  rw [tokens]
  by_cases ht : firstRun isSpace b = []
  · rw [runs_eq_nil_iff.mpr (sep_of_firstRun_eq_nil ht), behindFirst_eq_nil ht]
    exact hempty.symm
  · rw [runs_eq_cons ht]
    by_cases hu : firstRun isSpace (behindFirst isSpace b) = []
    · rw [runs_eq_nil_iff.mpr (sep_of_firstRun_eq_nil hu), hu]
      exact hempty.symm
    · rw [runs_eq_cons hu]
      rfl

/-- A weather reply makes two tokens where something stands behind its first. -/
theorem two_tokens_iff {b : QByteArray} (hhead : b.head? = some 0x3A) :
    2 ≤ (tokens b).length ↔ ¬ Spaces (behindFirst isSpace b) := by
  have hfirst : firstRun isSpace b ≠ [] := by
    intro h
    exact absurd (sep_of_firstRun_eq_nil h 0x3A (List.mem_of_mem_head? hhead)) (by decide)
  rw [tokens, runs_eq_cons hfirst, List.length_cons, Nat.succ_le_succ_iff, Nat.one_le_iff_ne_zero,
    Ne, List.length_eq_zero_iff, runs_eq_nil_iff]
  simp [isSpace, Spaces]

/-- **With neither CR nor LF in it, the run between spaces is the next field**; with one, it is no
address. -/
theorem alike_first_iff (b : QByteArray) : Alike (some (firstRun isSpace b)) (fields b)[0]? ↔
    Unended (firstRun isSpace b) ∨ ¬ Announces (fields b)[0]? := by
  by_cases hclear : Unended (firstRun isSpace b)
  · refine iff_of_true ?_ (Or.inl hclear)
    by_cases hu : firstRun isSpace b = []
    · have hnone : fields b = [] := runs_eq_nil_iff.mpr fun c hc =>
        isBlank_of_isSpace c (sep_of_firstRun_eq_nil hu c hc)
      rw [hu, hnone]
      exact Or.inr (by decide)
    · have hblank : ∀ c ∈ firstRun isSpace b, isBlank c = false := fun c hc =>
        isBlank_eq_false.mpr ⟨sep_of_mem_firstRun hc, hclear c hc⟩
      rw [fields, runs_first isBlank_of_isSpace, runs_eq_singleton hblank hu]
      exact Or.inl rfl
  · have hu : ¬ Announces (some (firstRun isSpace b)) := by
      intro hannounces
      exact hclear fun c hc => not_or.mp fun hend => not_announces_of_mem hc hend hannounces
    rw [Alike, or_iff_right hclear]
    refine ⟨?_, fun hnext => Or.inr ⟨hu, hnext⟩⟩
    rintro (heq | ⟨-, hnext⟩)
    · exact heq ▸ hu
    · exact hnext

/-- **A frame of two fields with CR LF behind them is never recognised**: its address is read with
the terminator on it. -/
theorem parseData_terminated {t u : QByteArray} (ht : ∀ c ∈ t, isBlank c = false)
    (hu : ∀ c ∈ u, isBlank c = false) (htne : t ≠ []) (hune : u ≠ []) (hhead : t.head? ≠ some 0x3A)
    {w : UtisDeviceWorker} (hw : w.dataGram = t ++ 0x20 :: (u ++ [0x0D, 0x0A]))
    (hascii : Ascii w.dataGram) : w.parseData = [] ∧ classify w.dataGram = replyOf (some u) := by
  have hfirst : w.dataGram.head? = t.head? := by
    rw [hw, List.head?_append_of_ne_nil t htne]
  have htoken : (tokens w.dataGram)[1]? = some (u ++ [0x0D, 0x0A]) := by
    have hlast : ∀ c ∈ u ++ [0x0D, 0x0A], isSpace c = false := by
      intro c hc
      rcases List.mem_append.mp hc with hc | hc
      · exact (isBlank_eq_false.mp (hu c hc)).1
      · rcases List.mem_pair.mp hc with rfl | rfl <;> rfl
    rw [hw, tokens, runs_append_cons rfl, runs_eq_singleton hlast (by simp),
      runs_eq_singleton (fun c hc => (isBlank_eq_false.mp (ht c hc)).1) htne]
    rfl
  have hfield : (fields w.dataGram)[1]? = some u := by
    have hblank : ∀ c ∈ [0x0D, 0x0A], isBlank c = true := by
      intro c hc
      rcases List.mem_pair.mp hc with rfl | rfl <;> rfl
    rw [hw, fields, runs_append_cons rfl, runs_append_of_seps hblank,
      runs_eq_singleton hu hune, runs_eq_singleton ht htne]
    rfl
  rw [parseData_eq, hascii.textOf_eq, classify, hfirst, if_neg hhead, if_neg hhead, htoken, hfield]
  exact ⟨replyOf_eq_nil.mpr (not_announces_of_mem (c := 0x0D) (by simp) (Or.inl rfl)), rfl⟩

end UtisDevice
