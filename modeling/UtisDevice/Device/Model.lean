import UtisDevice.Machinery.Exclusive
import UtisDevice.Machinery.Utf8
import Mathlib.Data.Finset.Insert

/-!
# Device/Model — the device models, their categories and their commands

`AShuErDevive` as the source has it: a device is built from the name of its model, and caches the
type, the category and the read command it looked up in three separate tables.  Names are compared
exactly; a name no table knows gives the error type, whose category is the error category and whose
command is `-1`.

A pointer that may be null is an `Option`; a device on a list is never null.
-/

namespace UtisDevice

open Machinery

/-! ## Bytes

A command is an array of bytes; where the source makes a string of one, Qt 5 reads it as UTF-8, up
to the first NUL and without a byte order mark. -/

abbrev QByteArray := List UInt8

/-- The bytes of an ASCII literal. -/
def bytes (s : String) : QByteArray := s.toList.map fun c => c.val.toUInt8

/-- A byte order mark at the front is no text. -/
def skipBom : QByteArray → QByteArray
  | 0xEF :: 0xBB :: 0xBF :: b => b
  | b => b

/-- The bytes `QString(QByteArray)` reads. -/
def textOf (b : QByteArray) : QByteArray := skipBom (b.takeWhile (· != 0))

/-- `QString(QByteArray)`. -/
def toQString (b : QByteArray) : String := String.ofList (utf8Chars 0 (textOf b))

/-- ASCII without NUL: every byte is text. -/
def Ascii (b : QByteArray) : Prop := ∀ c ∈ b, 0 < c ∧ c < 0x80

instance (b : QByteArray) : Decidable (Ascii b) := List.decidableBAll _ b

theorem skipBom_cons {c : UInt8} (hc : c < 0x80) (b : QByteArray) : skipBom (c :: b) = c :: b := by
  unfold skipBom
  split
  · rename_i heq
    rw [List.cons.injEq] at heq
    exact absurd (heq.1 ▸ hc) (by decide)
  · rfl

theorem Ascii.textOf_eq {b : QByteArray} (h : Ascii b) : textOf b = b := by
  have htake : b.takeWhile (· != 0) = b :=
    List.takeWhile_eq_self_iff.mpr fun c hc => bne_iff_ne.mpr (UInt8.ne_of_lt (h c hc).1).symm
  rw [textOf, htake]
  cases b with
  | nil => rfl
  | cons c b => exact skipBom_cons (h c List.mem_cons_self).2 b

/-! ## The tables -/

/-- Device categories: one unit address on the bus each. -/
inductive EDeviceCategory
  /-- 气象站, the weather station. -/
  | qiXiangZhan
  /-- 路面, the road surface. -/
  | luMian
  /-- 能见度, the visibility. -/
  | nengJianDu
  | eDeviceCategoryError
  deriving DecidableEq, Repr

/-- Device models. -/
inductive EAShuErDevType
  | MWS600
  | RD3000B
  | RD3000C
  | VD920G
  | VD930A
  | eAShuErDevTypeError
  deriving DecidableEq, Repr

def cmdMWS600Read : QByteArray := bytes ":014400BB\r\n"
def cmdRD3000BRead : QByteArray := bytes "SCAN 02\r\n"
def cmdRD3000CRead : QByteArray := bytes "SCAN 02\r\n"
def cmdVD920GRead : QByteArray := bytes "DRAW 03\r\n"
def cmdVD930ARead : QByteArray := bytes "DRAW 03\r\n"

/-- `isvalid(e_AShuErDevType)`. -/
def EAShuErDevType.isvalid : EAShuErDevType → Bool
  | .MWS600 => true
  | .RD3000B => true
  | .RD3000C => true
  | .VD920G => true
  | .VD930A => true
  | .eAShuErDevTypeError => false

def eAShuErDevType2Str : EAShuErDevType → String
  | .MWS600 => "MWS600"
  | .RD3000B => "RD3000B"
  | .RD3000C => "RD3000C"
  | .VD920G => "VD920G"
  | .VD930A => "VD930A"
  | .eAShuErDevTypeError => "-1"

def str2eAShuErDevType (devType : String) : EAShuErDevType :=
  let backDevType := EAShuErDevType.eAShuErDevTypeError
  let backDevType := if devType = "MWS600" then .MWS600 else backDevType
  let backDevType := if devType = "RD3000B" then .RD3000B else backDevType
  let backDevType := if devType = "RD3000C" then .RD3000C else backDevType
  let backDevType := if devType = "VD920G" then .VD920G else backDevType
  if devType = "VD930A" then .VD930A else backDevType

/-- `isvalid(QString)`. -/
def isvalid (devType : String) : Bool := (str2eAShuErDevType devType).isvalid

def getDeviceCategory : EAShuErDevType → EDeviceCategory
  | .MWS600 => .qiXiangZhan
  | .RD3000B => .luMian
  | .RD3000C => .luMian
  | .VD920G => .nengJianDu
  | .VD930A => .nengJianDu
  | .eAShuErDevTypeError => .eDeviceCategoryError

/-- `getCmd(e_AShuErDevType)`.  The source answers `RD3000B` with the command of `MWS600`, and
leaves `CMD_RD3000B_READ` unused. -/
def getCmdOf : EAShuErDevType → QByteArray
  | .MWS600 => cmdMWS600Read
  | .RD3000B => cmdMWS600Read
  | .RD3000C => cmdRD3000CRead
  | .VD920G => cmdVD920GRead
  | .VD930A => cmdVD930ARead
  | .eAShuErDevTypeError => bytes "-1"

/-! ## Devices -/

/-- A device object; its fields are set once, by `new`. -/
structure AShuErDevive where
  devTypeStr : String
  devType : EAShuErDevType
  devCategory : EDeviceCategory
  cmd : QByteArray
  deriving DecidableEq, Repr

namespace AShuErDevive

/-- The constructor. -/
def new (devTypeStr : String) : AShuErDevive where
  devTypeStr := devTypeStr
  devType := str2eAShuErDevType devTypeStr
  devCategory := getDeviceCategory (str2eAShuErDevType devTypeStr)
  cmd := getCmdOf (str2eAShuErDevType devTypeStr)

def getCmd (dev : AShuErDevive) : QByteArray := dev.cmd

def geteAShuErDevTypeStr (dev : AShuErDevive) : String := dev.devTypeStr

def geteAShuErDevType (dev : AShuErDevive) : EAShuErDevType := dev.devType

def geteDeviceCategory (dev : AShuErDevive) : EDeviceCategory := dev.devCategory

def isExclusion : Option AShuErDevive → Option AShuErDevive → Bool
  | some dev1, some dev2 =>
    dev1.devCategory == dev2.devCategory || dev1.devType == dev2.devType
  | _, _ => true

@[simp] theorem new_devTypeStr (s : String) : (new s).devTypeStr = s := rfl

/-- The fields of a device are those its constructor looks up for its name. -/
def Built (dev : AShuErDevive) : Prop := dev = new dev.devTypeStr

theorem built_new (s : String) : (new s).Built := rfl

end AShuErDevive

/-! ## The tables agree -/

/-- **The two name tables are inverse on valid names.** -/
theorem eAShuErDevType2Str_str2e {devType : String} (h : isvalid devType = true) :
    eAShuErDevType2Str (str2eAShuErDevType devType) = devType := by
  unfold isvalid str2eAShuErDevType at *
  grind [EAShuErDevType.isvalid, eAShuErDevType2Str]

/-- A valid name is determined by its type. -/
theorem str2e_injOn {s t : String} (hs : isvalid s = true) (ht : isvalid t = true)
    (h : str2eAShuErDevType s = str2eAShuErDevType t) : s = t := by
  rw [← eAShuErDevType2Str_str2e hs, ← eAShuErDevType2Str_str2e ht, h]

/-- The categories a valid model can have. -/
def categories : Finset EDeviceCategory := {.qiXiangZhan, .luMian, .nengJianDu}

theorem card_categories : categories.card = 3 := rfl

theorem category_mem_categories {t : EAShuErDevType} (h : t.isvalid = true) :
    getDeviceCategory t ∈ categories := by
  cases t <;> simp_all [EAShuErDevType.isvalid, getDeviceCategory, categories]

namespace AShuErDevive

/-- The type comparison in `isExclusion` never decides: equal types have equal categories. -/
theorem isExclusion_eq_false {d d' : AShuErDevive} (hd : d.Built) (hd' : d'.Built) :
    isExclusion (some d) (some d') = false ↔ d.devCategory ≠ d'.devCategory := by
  have htype : d.devType = d'.devType → d.devCategory = d'.devCategory := fun h => by
    rw [hd, hd'] at h ⊢
    exact congrArg getDeviceCategory h
  simp only [isExclusion, Bool.or_eq_false_iff, beq_eq_false_iff_ne]
  exact ⟨And.left, fun h => ⟨h, fun ht => h (htype ht)⟩⟩

theorem isExclusion_eq_true {d d' : AShuErDevive} (hd : d.Built) (hd' : d'.Built) :
    isExclusion (some d) (some d') = true ↔ d.devCategory = d'.devCategory := by
  rw [← not_iff_not, Bool.not_eq_true, isExclusion_eq_false hd hd']

end AShuErDevive

end UtisDevice
