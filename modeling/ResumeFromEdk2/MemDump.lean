/-
**The dump patcher `modify-mem-dump`.**

The program maps a memory dump, walks the page tables inside it from `cr3` to the entry of one
virtual address, clears the no-execute bit of that entry, and then clears the busy bit of the TSS
descriptor at a fixed physical address.  This module is the program as it is written: the macros
and helpers taken over from the kernel, `ClearPageNXFlag`, `modify_mem_dump` and `main`.

An `unsigned long` is a word of 64 bits, and so is a pointer.  The mapped memory is an image, which
has whole pages: behind the end of the file the last one is zero, and what is written there is lost.
An access through a pointer is an access to the image at the distance of the pointer from the start
`physmem` of the mapping.  An access that does not lie in the mapped bytes ends the program by a
signal, and leaves the file as it stands.  `ClearPageNXFlag` writes nothing before its last access,
so `none` as its result says all about such a run.

Main definitions:

* `MemDump.MapAddr` — an address at which `mmap` places a file;
* `MemDump.load`, `MemDump.store` — the accesses to the mapped dump;
* `MemDump.clearPageNXFlag` — the walk and the patch, with the code that it returns;
* `MemDump.Ended` — how a run of a caller ends, and the memory that it leaves;
* `MemDump.modifyMemDump`, `MemDump.main` — the callers.
-/

import ResumeFromEdk2.ByteImage

set_option relaxedAutoImplicit false
set_option autoImplicit false

namespace MemDump

open BitField ByteImage

variable {n : ℕ}

/-! ### Shifts, indices and masks -/

/-- The low twelve bits of CR3 are flags. -/
def cr3AddrMask : BitVec 64 := 0x7FFFFFFFFFFFF000

def cr3ToPgtPa (cr3 : BitVec 64) : BitVec 64 := cr3 &&& cr3AddrMask

def pageBitPse : ℕ := 7

def pageBitNx : ℕ := 63

def pagePse : BitVec 64 := 1 <<< pageBitPse

def pageNx : BitVec 64 := 1 <<< pageBitNx

def pteOrder : ℕ := 0

def pageShift : ℕ := 12

def physicalMaskShift : ℕ := 52

def pmdShift : ℕ := pageShift + (pageShift + pteOrder - 3)

def pmdBits : ℕ := pageShift - 3

def pudShift : ℕ := pmdShift + pmdBits

def pudBits : ℕ := pageShift - 3

def pgdirShift : ℕ := pudShift + pudBits

def entries : BitVec 64 := 512

def pgdIndex (address : BitVec 64) : BitVec 64 := (address >>> pgdirShift) &&& (entries - 1)

def pudIndex (address : BitVec 64) : BitVec 64 := (address >>> pudShift) &&& (entries - 1)

def pmdIndex (address : BitVec 64) : BitVec 64 := (address >>> pmdShift) &&& (entries - 1)

def pteIndex (address : BitVec 64) : BitVec 64 := (address >>> pageShift) &&& (entries - 1)

/-- `PAGE_SIZE`, an `int`. -/
def pageSize : BitVec 32 := 4096

def physicalMask : BitVec 64 := (1 <<< physicalMaskShift) - 1

/-- `PAGE_MASK`, a negative `int`. -/
def pageMask : BitVec 32 := ~~~(pageSize - 1)

/-- The cast of `PAGE_MASK` to `signed long` extends its sign. -/
def physicalPageMask : BitVec 64 := pageMask.signExtend 64 &&& physicalMask

def ptePfnMask : BitVec 64 := physicalPageMask

def pudPageSize : BitVec 64 := 1 <<< pudShift

def pudPageMask : BitVec 64 := ~~~(pudPageSize - 1)

def pmdPageSize : BitVec 64 := 1 <<< pmdShift

def pmdPageMask : BitVec 64 := ~~~(pmdPageSize - 1)

def physicalPmdPageMask : BitVec 64 := pmdPageMask &&& physicalMask

def physicalPudPageMask : BitVec 64 := pudPageMask &&& physicalMask

/-! ### Helpers of the page-table walk -/

def pgdNone (pgd : BitVec 64) : Bool := pgd == 0

def pudNone (pud : BitVec 64) : Bool := pud == 0

def pmdNone (pmd : BitVec 64) : Bool := pmd == 0

def pudPfnMask (pud : BitVec 64) : BitVec 64 :=
  if pud &&& pagePse ≠ 0 then physicalPudPageMask else ptePfnMask

def pmdPfnMask (pmd : BitVec 64) : BitVec 64 :=
  if pmd &&& pagePse ≠ 0 then physicalPmdPageMask else ptePfnMask

def pgdPageVaddr (pgd : BitVec 64) : BitVec 64 := pgd &&& ptePfnMask

def pudPageVaddr (pud : BitVec 64) : BitVec 64 := pud &&& pudPfnMask pud

def pmdPageVaddr (pmd : BitVec 64) : BitVec 64 := pmd &&& pmdPfnMask pmd

/-- **An address at which `mmap` places a file**: not null, and in the lower half. -/
structure MapAddr where
  ptr : BitVec 64
  ptr_pos : 0 < ptr.toNat
  ptr_lt : ptr.toNat < 2 ^ 47

instance : Inhabited MapAddr := ⟨⟨0x7f0000000000, by decide, by decide⟩⟩

/-- Reading the `unsigned long` at a pointer into the mapping at `physmem`. -/
def load (physmem : BitVec 64) (m : Image n) (p : BitVec 64) : Option (BitVec 64) :=
  m.word (p - physmem).toNat

/-- Writing the `unsigned long` at a pointer into the mapping at `physmem`. -/
def store (physmem : BitVec 64) (m : Image n) (p w : BitVec 64) : Option (Image n) :=
  if (p - physmem).toNat + 8 ≤ n then some (m.setWord (p - physmem).toNat w) else none

/-- An entry has eight bytes. -/
def pgdOffsetPgd (pgd address : BitVec 64) : BitVec 64 := pgd + 8 * pgdIndex address

def pudOffset (physmem : BitVec 64) (m : Image n) (pgd address : BitVec 64) :
    Option (BitVec 64) := do
  let v ← load physmem m pgd
  return physmem + pgdPageVaddr v + 8 * pudIndex address

def pmdOffset (physmem : BitVec 64) (m : Image n) (pud address : BitVec 64) :
    Option (BitVec 64) := do
  let v ← load physmem m pud
  return physmem + pudPageVaddr v + 8 * pmdIndex address

def pteOffsetKernel (physmem : BitVec 64) (m : Image n) (pmd address : BitVec 64) :
    Option (BitVec 64) := do
  let v ← load physmem m pmd
  return physmem + pmdPageVaddr v + 8 * pteIndex address

/-! ### The program -/

/-- **`ClearPageNXFlag`**: the code it returns and the memory it leaves; `none` if an access lies
outside of the mapping, before anything is written. -/
def clearPageNXFlag (physmem : MapAddr) (pgdBase va : BitVec 64) (m : Image n) :
    Option (ℤ × Image n) := do
  let pgd := pgdOffsetPgd (physmem.ptr + pgdBase) va
  if pgdNone (← load physmem.ptr m pgd) then
    return (-1, m)
  else
    let pud ← pudOffset physmem.ptr m pgd va
    if pudNone (← load physmem.ptr m pud) then
      return (-2, m)
    else
      let pmd ← pmdOffset physmem.ptr m pud va
      if pmdNone (← load physmem.ptr m pmd) then
        return (-3, m)
      else
        let ptep ← pteOffsetKernel physmem.ptr m pmd va
        if ptep = 0 then
          return (-4, m)
        else
          let m ← store physmem.ptr m ptep ((← load physmem.ptr m ptep) &&& ~~~pageNx)
          return (0, m)

def gdtPhysAddr : BitVec 64 := 0x3d00b000

/-- The eighth entry of the GDT. -/
def tssOffset : BitVec 64 := 0x40

/-- **How a run of `modify_mem_dump` ends**: it returns, when it has printed a code, or a signal
ends the program.  The memory is left as it stands. -/
inductive Ended (n : ℕ) where
  | returned (rc : ℤ) (m : Image n)
  | killed (m : Image n)

/-- The memory that is left. -/
def Ended.memory : Ended n → Image n
  | .returned _ m => m
  | .killed m => m

/-- The second patch of `modify_mem_dump`. -/
def patchTssDesc (physmem : BitVec 64) (m : Image n) : Option (Image n) := do
  let tssDesc := physmem + gdtPhysAddr + tssOffset
  -- clear the 41-st bit
  store physmem m tssDesc ((← load physmem m tssDesc) &&& ~~~(1#64 <<< 41))

/-- **`modify_mem_dump`** from the mapping of the dump on.  The code is printed and not looked at
again. -/
def modifyMemDump (physmem : MapAddr) (cr3 va : BitVec 64) (dump : Image n) : Ended n :=
  match clearPageNXFlag physmem cr3 va dump with
  | none => .killed dump
  | some (rc, m) => (patchTssDesc physmem.ptr m).elim (.killed m) (.returned rc)

/-- A file of `n` bytes is mapped in whole pages. -/
def mapSize (n : ℕ) : ℕ := (n + 4095) / 4096 * 4096

/-- **The mapping of a file.** -/
def mapFile (m : Image n) : Image (mapSize n) := m.resize (mapSize n)

/-! ### The command line -/

/-- The value of a digit, or `36`. -/
def digitValue (c : Char) : ℕ :=
  if '0' ≤ c ∧ c ≤ '9' then c.toNat - '0'.toNat
  else if 'a' ≤ c ∧ c ≤ 'z' then c.toNat - 'a'.toNat + 10
  else if 'A' ≤ c ∧ c ≤ 'Z' then c.toNat - 'A'.toNat + 10
  else 36

/-- The number spelled by the longest run of digits at the start of a text. -/
def digits (base : ℕ) (s : List Char) : ℕ :=
  (s.takeWhile fun c => digitValue c < base).foldl (fun v c => v * base + digitValue c) 0

/-- The number at the start of a text without sign, its base read off its first characters. -/
def unsignedDigits : List Char → ℕ
  | '0' :: x :: d :: s =>
      if (x = 'x' ∨ x = 'X') ∧ digitValue d < 16 then digits 16 (d :: s)
      else digits 8 ('0' :: x :: d :: s)
  | '0' :: s => digits 8 ('0' :: s)
  | s => digits 10 s

/-- A number as an `unsigned long`, with the greatest one for those that do not fit. -/
def clampUnsigned (v : ℕ) : BitVec 64 := if v < 2 ^ 64 then BitVec.ofNat 64 v else BitVec.allOnes 64

/-- `strtoul(s, NULL, 0)`. -/
def strtoul (s : List Char) : BitVec 64 :=
  let s := s.dropWhile fun c => c == ' ' || (9 ≤ c.toNat && c.toNat ≤ 13)
  match s with
  | '-' :: s =>
      if unsignedDigits s < 2 ^ 64 then -(clampUnsigned (unsignedDigits s)) else BitVec.allOnes 64
  | '+' :: s => clampUnsigned (unsignedDigits s)
  | s => clampUnsigned (unsignedDigits s)

/-- What the caller of the program learns: its exit status, or that a signal has ended it, which
the shell reports as a status other than `0`. -/
inductive Status where
  | exited (code : ℤ)
  | killed
  deriving DecidableEq

/-- **`main`**: the status, and what is left of the file named by the first argument; `none` stands
for a file that cannot be opened. -/
def main (physmem : MapAddr) (argv : List (List Char)) (dump : Option (Image n)) :
    Status × Option (Image n) :=
  match argv with
  | [] => (.exited 1, dump)
  | [_] => (.exited 1, dump)
  -- `strtoul` reads through a null pointer
  | [_, _] => (.killed, dump)
  | [_, _, _] => (.killed, dump)
  | _ :: _ :: cr3 :: va :: _ =>
      match dump with
      | none => (.exited 1, none)
      | some m =>
          match modifyMemDump physmem (strtoul cr3) (strtoul va) (mapFile m) with
          | .returned _ m' => (.exited 0, some (m'.resize n))
          | .killed m' => (.killed, some (m'.resize n))

end MemDump
