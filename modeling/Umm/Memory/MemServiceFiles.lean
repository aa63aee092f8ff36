import Umm.Memory.MemServiceRegister

/-! The memory service over the files of the OS. The regular file of an SSD device that is mapped is
cut to the capacity of the device when it is opened, whatever it serves for already: a registration
can cut off bytes that an earlier device, or the memory of another tier, has in it. -/
namespace Umm
open Umm.Lib

/-- The service with the files behind it. The OS tells them apart: several paths can lead to one
file. -/
structure FileService (F : Type) where
  mem : MemServiceCtx
  /-- The regular file of a device in the SSD pool, by the index of the device, and where the device
  starts in it. -/
  deviceFile : ℕ → Option (F × ℕ)
  /-- The regular file that the memory of a tier is mapped from. -/
  windowFile : Tier → Option F
  /-- How many bytes the files have. -/
  size : F → ℕ

/-- What the world answers while storage is registered. -/
structure FileEnv (F : Type) where
  register : RegisterEnv
  /-- The regular file that is opened, and cut if it is to be mapped for the SSD tier. There is none
  behind a block device. -/
  file : Option F
  /-- Where a `direct` device starts in its file. -/
  base : ℕ

namespace FileService

variable {F : Type}

section Register

variable (svc : FileService F) (res : StorageResource) (env : FileEnv F)

/-- The file that `ssd_backend_create` cuts, if the registration gets to its `ftruncate`. -/
def truncated : Option F :=
  let t := (svc.mem.tiers .ssd).registering res
  if res.tier = .ssd ∧ res.device = some .file ∧ env.register.blockRejected = false ∧
      res.capacity ≠ 0 ∧ t.allocator.isSome ∧ (t.ssdPool.isSome ∨ env.register.gotPool) ∧
      (t.ssdPool.getD ssdPoolCreate).devices.length < ssdPoolMaxDevices ∧
      roundUpPage res.capacity ≠ 0 then env.file
  else none

/-- The regular file behind the device that is opened. -/
def openedFile : Option (F × ℕ) :=
  match res.device with
  | some .file => env.file.map fun f => (f, 0)
  | some .direct => env.file.map fun f => (f, env.base)
  | some .ndsMeta | some .libnvm | some .nds | none => none

/-- `memsvc_register_storage`, with what it does to the files. -/
def registerStorage [DecidableEq F] : Except Error Unit × FileService F :=
  let r := memsvcRegisterStorage svc.mem res env.register
  let pool := ((svc.mem.tiers .ssd).registering res).ssdPool.getD ssdPoolCreate
  (r.1,
    { mem := r.2
      deviceFile :=
        if res.tier = .ssd ∧ res.device.isSome ∧ r.1.isOk then
          Function.update svc.deviceFile pool.devices.length (openedFile res env)
        else svc.deviceFile
      windowFile :=
        if res.tier = .dram ∧ r.1.isOk then
          Function.update svc.windowFile .dram (if res.device.isSome then env.file else none)
        else svc.windowFile
      size :=
        match svc.truncated res env with
        | none => svc.size
        | some f => Function.update svc.size f (roundUpPage res.capacity) })

end Register

/-- The file behind a byte of a tier, and the place of the byte in it. -/
def fileAt (svc : FileService F) (tier : Tier) (x : ℕ) : Option (F × ℕ) :=
  let t := svc.mem.tiers tier
  match tier, t.ssdPool with
  | .ssd, some pool =>
    match ssdPoolTranslate pool x with
    | .ok (i, o) => (svc.deviceFile i).map fun p => (p.1, p.2 + o)
    | .error _ => none
  | _, _ => if t.window.isSome then (svc.windowFile tier).map fun f => (f, x) else none

/-- The byte is there: it does not lie behind the end of a file. -/
def There (svc : FileService F) (tier : Tier) (x : ℕ) : Prop :=
  ∀ f o, svc.fileAt tier x = some (f, o) → o < svc.size f

/-- No file is cut where allocated bytes of any tier lie in it, and one that DRAM is mapped from
anew reaches as far as what is allocated. -/
def Spares (svc : FileService F) (res : StorageResource) (env : FileEnv F) : Prop :=
  res.capacity = 0 ∨
    match res.tier with
    | .ssd => ∀ f, svc.truncated res env = some f → ∀ tier x o, svc.mem.Allocated tier x 1 →
        svc.fileAt tier x = some (f, o) → o < svc.size f → o < roundUpPage res.capacity
    | .dram => ∀ f, res.device.isSome = true → env.file = some f →
        ∀ x, svc.mem.Allocated .dram x 1 → svc.There .dram x → x < svc.size f
    | .cxl | .resv => True

variable {svc svc' : FileService F} {tier : Tier} {x : ℕ}

/-! Where the bytes lie. -/

section Cut

variable [DecidableEq F] {cut : Option F} {n : ℕ}

end Cut

variable {res : StorageResource} {env : FileEnv F}

variable [DecidableEq F]

section Dram

variable {capacity baseOffset : ℕ} {device : Option BackendKind} {w : List UInt8}

end Dram

end FileService

namespace MemServiceCtx

end MemServiceCtx

namespace FileService

/-- A registration of the one file that there is. -/
def oneFile : FileEnv Unit := ⟨⟨false, true, ⟨true, fun _ => 0, true⟩, .failed⟩, some (), 0⟩

/-- An SSD tier on a file of two pages. -/
def twoPages : MemServiceCtx :=
  (memsvcRegisterStorage memServiceDirectCreateV2 (MemsvcCall.resource .ssd 8192 0 (some .file))
    oneFile.register).2

theorem fits_of_all {m : MemServiceCtx}
    (h : (m.tiers .ssd).ssdPool.all (fun pool => pool.bitmapBytes ≤ mmapWindow) = true) :
    m.FitsMemory := by
  intro pool hpool
  rw [hpool] at h
  simpa using h

theorem twoPages_reachable : twoPages.Reachable :=
  MemServiceCtx.Reachable.next (Reach.start rfl)
    (.registerStorage .ssd 8192 0 (some .file) oneFile.register) rfl
    (fits_of_all (by decide +kernel))

end FileService

end Umm
