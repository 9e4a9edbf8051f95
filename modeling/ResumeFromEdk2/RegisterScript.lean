/-
**`process_qemu_info_registers.py`.**

The script reads the transcript of the monitor, collects what looks like a register in a
dictionary, and prints assignments to the fields of the saved CPU state, to be included in
`state-blob.c`, followed by the dictionary in a comment.

Main definitions:

* `RegisterScript.regPattern`, `RegisterScript.xdtPattern`, `RegisterScript.segPattern` — the three
  regular expressions;
* `RegisterScript.lineAssignments` — what one line of the transcript puts into the dictionary;
* `RegisterScript.codeTemplate` — the assignments, with the keys of the registers they take;
* `RegisterScript.main` — the output of the script, or that it fails.
-/

import ResumeFromEdk2.PyText
import ResumeFromEdk2.Regex

set_option relaxedAutoImplicit false
set_option autoImplicit false

namespace RegisterScript

open PyText Regex

/-! ### Characters -/

/-- The part of Python's character database that the script depends on.  The template takes no
register whose key has a character outside ASCII, so what is asked of `lower` there is only that
it gives nothing that a key of the template begins with. -/
structure Unicode where
  /-- `str.lower` of one character.  Its one rule that looks at more, for a final sigma, does not
  apply to what the script lowers. -/
  lower : Char → Text
  /-- `str.isprintable`, outside ASCII. -/
  printable : Char → Bool
  lower_ascii : ∀ c : Char, c.toNat < 128 → lower c = [c.toLower]
  lower_nonAscii : ∀ c : Char, 128 ≤ c.toNat → lower c ≠ ['g'] ∧ lower c ≠ ['i']

def Unicode.lowerText (u : Unicode) (t : Text) : Text := t.flatMap u.lower

/-- `[A-Z0-9_]` -/
def isName (c : Char) : Bool := c.isUpper || c.isDigit || c = '_'

/-- `[0-9a-f]` -/
def isHex (c : Char) : Bool := c.isDigit || ('a' ≤ c && c ≤ 'f')

/-! ### The regular expressions -/

/-- `([A-Z0-9_]+ ?)=([0-9a-f]+)` -/
def regPattern : Regex Char :=
  seq (group (seq (plus isName) (opt (lit ' ')))) (seq (lit '=') (group (plus isHex)))

/-- `^(.DT)=\s*([0-9a-f]+)\s+([0-9a-f]+)`; `re.match` tries the start of the line only. -/
def xdtPattern : Regex Char :=
  seq (group (seq (char fun c => c ≠ '\n') (seq (lit 'D') (lit 'T'))))
    (seq (lit '=') (seq (many isSpace) (seq (group (plus isHex))
      (seq (plus isSpace) (group (plus isHex))))))

/-- `^(FS|GS) =[0-9a-f]+\s*([0-9a-f]+)` -/
def segPattern : Regex Char :=
  seq (group (alt (seq (lit 'F') (lit 'S')) (seq (lit 'G') (lit 'S'))))
    (seq (lit ' ') (seq (lit '=') (seq (plus isHex) (seq (many isSpace) (group (plus isHex))))))

/-- The text of a group, counted from 1 as `m[1]` does. -/
def groupText (m : Match Char) (i : ℕ) : Text := m.groups.getD (i - 1) []

/-! ### The dictionary -/

inductive Value where
  | int (n : ℤ)
  | str (t : Text)
  deriving DecidableEq

def Value.format : Value → Text
  | .int n => (toString n).toList
  | .str t => t

/-- The assignment that one match of `regPattern` makes. -/
def regAssignment (u : Unicode) (m : Match Char) : Text × Text :=
  (u.lowerText (strip (groupText m 1)), u.lowerText (groupText m 2))

def regAssignments (u : Unicode) (line : Text) : List (Text × Text) :=
  (regPattern.findall line).map (regAssignment u)

def xdtAssignments (u : Unicode) (line : Text) : List (Text × Text) :=
  match xdtPattern.first line with
  | none => []
  | some m =>
      let xdt := u.lowerText (groupText m 1)
      [(xdt ++ "_addr".toList, groupText m 2), (xdt ++ "_size".toList, groupText m 3)]

def segAssignments (u : Unicode) (line : Text) : List (Text × Text) :=
  match segPattern.first line with
  | none => []
  | some m =>
      let seg := u.lowerText (groupText m 1)
      [(seg ++ "_base".toList, groupText m 2)]

/-- What one line puts into the dictionary, in this order. -/
def lineAssignments (u : Unicode) (line : Text) : List (Text × Text) :=
  regAssignments u line ++ xdtAssignments u line ++ segAssignments u line

/-- The dictionary `s` after the loop. -/
def parse (u : Unicode) (ripOffset : ℤ) (stdin : Text) : Dict Text Value :=
  Dict.setAll [("rip_offset".toList, .int ripOffset)]
    (((lines stdin).flatMap (lineAssignments u)).map fun a => (a.1, .str a.2))

/-! ### The code -/

/-- A line of the template: `  s.<field> = 0x{<key>};`, or the same with ` + {rip_offset}`. -/
structure Assign where
  field : String
  key : String
  plusOffset : Bool := false

/-- The template `code`. -/
def codeTemplate : List Assign :=
  [⟨"regs.ax", "rax", false⟩, ⟨"regs.bx", "rbx", false⟩, ⟨"regs.cx", "rcx", false⟩,
   ⟨"regs.dx", "rdx", false⟩, ⟨"regs.si", "rsi", false⟩, ⟨"regs.di", "rdi", false⟩,
   ⟨"regs.bp", "rbp", false⟩, ⟨"regs.sp", "rsp", false⟩, ⟨"regs.r8", "r8", false⟩,
   ⟨"regs.r9", "r9", false⟩, ⟨"regs.r10", "r10", false⟩, ⟨"regs.r11", "r11", false⟩,
   ⟨"regs.r12", "r12", false⟩, ⟨"regs.r13", "r13", false⟩, ⟨"regs.r14", "r14", false⟩,
   ⟨"regs.r15", "r15", false⟩, ⟨"regs.flags", "rfl", false⟩, ⟨"regs.orig_ax", "rax", false⟩,
   ⟨"regs.ip", "rip", true⟩, ⟨"regs.cs", "cs", false⟩, ⟨"regs.ss", "ss", false⟩,
   ⟨"ds", "ds", false⟩, ⟨"es", "es", false⟩, ⟨"fs", "fs", false⟩, ⟨"gs", "gs", false⟩,
   ⟨"tr", "tr", false⟩, ⟨"fs_base", "fs_base", false⟩, ⟨"gs_base", "gs_base", false⟩,
   ⟨"kernelgs_base", "msr_kernelgsbase", false⟩, ⟨"cr0", "cr0", false⟩, ⟨"cr2", "cr2", false⟩,
   ⟨"cr3", "cr3", false⟩, ⟨"cr4", "cr4", false⟩, ⟨"efer", "efer", false⟩,
   ⟨"sysenter_cs", "msr_sysenter_cs", false⟩, ⟨"sysenter_esp", "msr_sysenter_esp", false⟩,
   ⟨"sysenter_eip", "msr_sysenter_eip", false⟩, ⟨"star", "msr_star", false⟩,
   ⟨"lstar", "msr_lstar", false⟩, ⟨"cstar", "msr_cstar", false⟩, ⟨"fmask", "msr_fmask", false⟩,
   ⟨"tsc_aux", "msr_tsc_aux", false⟩, ⟨"gdt_desc.size", "gdt_size", false⟩,
   ⟨"gdt_desc.address", "gdt_addr", false⟩, ⟨"idt.size", "idt_size", false⟩,
   ⟨"idt.address", "idt_addr", false⟩]

/-- A line of the code, with the text for the register and the text for the offset. -/
def Assign.text (a : Assign) (reg offset : Text) : Text :=
  "  s.".toList ++ a.field.toList ++ " = 0x".toList ++ reg ++
    (if a.plusOffset then " + ".toList ++ offset else []) ++ ";\n".toList

/-- `format_map` of one line: a key that the dictionary lacks is a `KeyError`. -/
def Assign.format (a : Assign) (s : Dict Text Value) : Option Text := do
  let reg ← s.get? a.key.toList
  let offset ← if a.plusOffset then s.get? "rip_offset".toList else some (.str [])
  some (a.text reg.format offset.format)

/-- `code.format_map(s)` -/
def formatMap (s : Dict Text Value) : Option Text := do
  let code ← codeTemplate.mapM fun a => a.format s
  some ('\n' :: code.flatten)

/-! ### The comment -/

/-- `n` in lowercase hexadecimal, with at least `k` digits. -/
def hexDigits (k n : ℕ) : Text := (Nat.toDigits 16 n).leftpad k '0'

def reprChar (u : Unicode) (quote c : Char) : Text :=
  if c = quote ∨ c = '\\' then ['\\', c]
  else if c = '\t' then "\\t".toList
  else if c = '\n' then "\\n".toList
  else if c = '\r' then "\\r".toList
  else if c.toNat < 0x20 ∨ c.toNat = 0x7f then "\\x".toList ++ hexDigits 2 c.toNat
  else if c.toNat < 0x7f ∨ u.printable c then [c]
  else if c.toNat ≤ 0xff then "\\x".toList ++ hexDigits 2 c.toNat
  else if c.toNat ≤ 0xffff then "\\u".toList ++ hexDigits 4 c.toNat
  else "\\U".toList ++ hexDigits 8 c.toNat

/-- `repr` of a string: in single quotes, unless it has single quotes and no double ones. -/
def reprText (u : Unicode) (t : Text) : Text :=
  let quote := if '\x27' ∈ t ∧ '\x22' ∉ t then '\x22' else '\x27'
  quote :: (t.flatMap (reprChar u quote) ++ [quote])

def Value.repr (u : Unicode) : Value → Text
  | .int n => (toString n).toList
  | .str t => reprText u t

def reprDict (u : Unicode) (s : Dict Text Value) : Text :=
  let items := s.map fun a => reprText u a.1 ++ ": ".toList ++ a.2.repr u
  '\x7b' :: (List.intercalate ", ".toList items ++ ['\x7d'])

/-! ### The script -/

/-- The four `print`. -/
def output (code comment : Text) : Text :=
  code ++ "\n/*\n".toList ++ comment ++ "\n*/\n".toList

/-- **The script**: its output, or `none` if it fails with a `KeyError` and prints nothing. -/
def main (u : Unicode) (ripOffset : ℤ) (stdin : Text) : Option Text := do
  let s := parse u ripOffset stdin
  let code ← formatMap s
  some (output code (reprDict u s))

end RegisterScript
