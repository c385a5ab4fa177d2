import UtisDevice.Worker.Parse
import UtisDevice.Worker.Receive

/-!
# Worker/Replies — replies that are read together

    datagrams    "M 02 17␣"  "M 03 40"            read together
    m_dataGram   "M 02 17␣M 03 40"
    parseData    路面信息                         of the first

`slotReadyRead` joins what is pending and `parseData` looks at the first two tokens, so of replies
read together it says what it would say of the first by itself, if that has a space behind its
second token (`first_reply_only`).
-/

namespace UtisDevice

open Machinery UtisDeviceWorker

/-- A reply with a space behind its second token. -/
def Whole (d : QByteArray) : Prop := ∃ u v, d = u ++ 0x20 :: v ∧ 2 ≤ (tokens (skipBom u)).length

theorem skipBom_append_cons (u v : QByteArray) :
    skipBom (u ++ 0x20 :: v) = skipBom u ++ 0x20 :: v := by
  rcases u with _ | ⟨a, _ | ⟨b, _ | ⟨c, u⟩⟩⟩ <;> simp only [List.nil_append, List.cons_append] <;>
    unfold skipBom <;> grind

/-- **Text goes on behind a space** unless a NUL has ended it before. -/
theorem textOf_append_cons (u v : QByteArray) :
    textOf (u ++ 0x20 :: v) = textOf u ∨
      textOf u = skipBom u ∧
        textOf (u ++ 0x20 :: v) = textOf u ++ 0x20 :: v.takeWhile (· != 0) := by
  by_cases hnul : ∀ c ∈ u, (c != 0) = true
  · have hu : textOf u = skipBom u := by rw [textOf, List.takeWhile_eq_self_iff.mpr hnul]
    refine Or.inr ⟨hu, ?_⟩
    rw [hu, textOf, List.takeWhile_append_of_pos hnul, List.takeWhile_cons_of_pos (by decide),
      skipBom_append_cons]
  · left
    rw [textOf, textOf, List.takeWhile_append, if_neg]
    intro hlen
    exact hnul (List.takeWhile_eq_self_iff.mp ((List.takeWhile_prefix _).eq_of_length hlen))

/-- **Nothing behind the second token matters.** -/
theorem parseData_of_append {u v : QByteArray} (hu : 2 ≤ (tokens (skipBom u)).length)
    {w : UtisDeviceWorker} (hw : w.dataGram = u ++ 0x20 :: v) :
    w.parseData = ({ dataGram := u } : UtisDeviceWorker).parseData := by
  have hne : u ≠ [] := by
    rintro rfl
    exact absurd hu (by decide)
  have hhead : w.dataGram.head? = u.head? := by rw [hw, List.head?_append_of_ne_nil u hne]
  rw [parseData_eq, parseData_eq, hhead]
  rcases textOf_append_cons u v with hended | ⟨htext, hgoes⟩
  · rw [hw, hended]
  · have htokens : tokens (textOf w.dataGram) =
        tokens (textOf u) ++ tokens (v.takeWhile (· != 0)) := by
      rw [hw, hgoes, tokens, runs_append_cons rfl, tokens, tokens]
    rw [← htext] at hu
    have hlen : 2 ≤ (tokens (textOf w.dataGram)).length := by
      rw [htokens, List.length_append]
      omega
    rw [if_pos hlen, if_pos hu, htokens, List.getElem?_append_left (by omega)]

theorem Whole.parseData_append {d rest : QByteArray} (hd : Whole d) {w w' : UtisDeviceWorker}
    (hw : w.dataGram = d ++ rest) (hw' : w'.dataGram = d) : w.parseData = w'.parseData := by
  obtain ⟨u, v, rfl, hu⟩ := hd
  rw [List.append_assoc, List.cons_append] at hw
  rw [parseData_of_append hu hw, parseData_of_append hu hw']

variable {h : List WorkerEntry} {w : UtisDeviceWorker}

/-- **Of replies read together the first is recognised alone.**  After any run, what `parseData`
says is what it says of the first datagram of the last batch read, if that is whole, however many
replies came with it and whatever they announce. -/
theorem first_reply_only (hr : worker.Run startUp h w) {d : QByteArray} {ds : List QByteArray}
    (hlast : (batches h).getLast? = some (d :: ds)) (hd : Whole d) :
    w.parseData = ({ dataGram := d } : UtisDeviceWorker).parseData := by
  have hdata : w.dataGram = d ++ ds.flatten := by
    rw [dataGram_of_run (.refl worker startUp) hr, hlast]
    rfl
  exact hd.parseData_append hdata rfl

/-- A road reply and a visibility reply. -/
theorem first_reply_only_run : ∃ h w, worker.Run startUp h w ∧
    (batches h).getLast? = some [bytes "M 02 17 ", bytes "M 03 40"] ∧
    w.parseData = [.showMsg "路面信息"] := by
  obtain ⟨h, w, hr, hlast⟩ := Machine.exists_run (M := worker) (s := startUp)
    [.datagram (bytes "M 02 17 "), .datagram (bytes "M 03 40"), .slotReadyRead]
    (P := fun h _ => (batches h).getLast? = some [bytes "M 02 17 ", bytes "M 03 40"]) (by decide)
  have hfirst := first_reply_only hr hlast ⟨bytes "M 02", bytes "17 ", rfl, by decide⟩
  exact ⟨h, w, hr, hlast, hfirst.trans (by decide)⟩

end UtisDevice
