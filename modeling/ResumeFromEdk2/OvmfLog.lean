/-
**`read-ovmf-log.py`.**

The firmware writes raw binary values into its log, each between `HEX|` and `|`.  The script reads
such a log and writes it out with every marker replaced by the value in hexadecimal, and by its
characters where all of them can be printed.

A payload may hold anything, newlines, bars and further `HEX|` among it.  What keeps the scan in
phase is that `HEX|` does not overlap with itself: no match can begin in the text before a marker
and run into it, and the match at a marker takes exactly the marker.

Main definitions:

* `OvmfLog.isAllPrintable`, `OvmfLog.replHex`, `OvmfLog.process` — the functions of the script;
* `OvmfLog.Log` — the logs that the firmware writes: text without `HEX|`, and payloads of eight
  bytes;
* `OvmfLog.Decodes` — what a marker is to be replaced by;
* `OvmfLog.MarkersPrintable` — no replacement has a byte that cannot be printed.

Main results:

* `OvmfLog.process_log` — **every marker is decoded, and nothing else is changed**;
* `OvmfLog.markersPrintable_iff` — the replacements can be printed exactly when no printed payload
  has a `DEL`.
-/

import ResumeFromEdk2.HexNumeral
import ResumeFromEdk2.PyText
import ResumeFromEdk2.Regex

set_option relaxedAutoImplicit false
set_option autoImplicit false

namespace OvmfLog

open PyText Regex

/-! ### The script -/

/-- `is_all_printable` -/
def isAllPrintable : List UInt8 → Bool
  | [] => true
  | b :: buf => if b < 32 || b > 127 then false else isAllPrintable buf

/-- `struct.unpack('Q', ...)` on a little-endian machine; any other length is an error. -/
def unpackQ (bs : List UInt8) : Option ℕ :=
  if bs.length = 8 then some (HexNumeral.ofBytes bs) else none

/-- `bytes.decode('ascii')`; a byte from 128 on is an error. -/
def decodeAscii (bs : List UInt8) : Option Text :=
  if bs.all (· < 128) then some (bs.map fun b => Char.ofNat b.toNat) else none

/-- `str.encode('utf-8')` -/
def encodeUtf8 (t : Text) : List UInt8 := t.flatMap String.utf8EncodeChar

/-- The bytes of `HEX|`. -/
def mark : List UInt8 := [0x48, 0x45, 0x58, 0x7c]

/-- The byte of `|`. -/
def bar : UInt8 := 0x7c

/-- `HEX\|(........)\|`, where a dot is any byte. -/
def hexPattern : Regex UInt8 := seq (lits mark) (seq (group (times (fun _ => true) 8)) (lit bar))

/-- `m[1]` -/
def payload (m : Match UInt8) : List UInt8 := m.groups.getD 0 []

/-- `repl_hex` -/
def replHex (m : Match UInt8) : Option (List UInt8) := do
  let theBytes := payload m
  let hexVal := "HEXDECODED=0x".toList ++ HexNumeral.padded 16 (← unpackQ theBytes)
  if isAllPrintable theBytes then
    some (encodeUtf8 (hexVal ++ (" ASCII=|".toList ++ (← decodeAscii theBytes) ++ "|".toList)))
  else some (encodeUtf8 hexVal)

/-- **`process`**: what is written for a file, or `none` if it cannot be opened or a replacement
fails. -/
def process (file : Option (List UInt8)) : Option (List UInt8) := do
  let buf ← file
  hexPattern.sub replHex buf

/-- The script as a whole, on the files there are. -/
def main (files : Text → Option (List UInt8)) (argv : List Text) : Option (List UInt8) :=
  if argv.length > 1 then process (files (argv.getD 1 [])) else process (files "ovmf-2.log".toList)

/-! ### Classification and encoding -/

theorem isAllPrintable_iff {buf : List UInt8} :
    isAllPrintable buf = true ↔ ∀ b ∈ buf, 0x20 ≤ b ∧ b ≤ 0x7f := by
  induction buf with
  | nil => simp [isAllPrintable]
  | cons b buf ih =>
      rw [isAllPrintable, List.forall_mem_cons, ← ih]
      by_cases hb : b < 32 ∨ b > 127
      · have hnot : ¬(0x20 ≤ b ∧ b ≤ 0x7f) := by
          rintro ⟨hge, hle⟩
          rcases hb with hb | hb
          · exact absurd hb (UInt8.not_lt.2 hge)
          · exact absurd hb (UInt8.not_lt.2 hle)
        simp [hb, hnot]
      · have hin : 0x20 ≤ b ∧ b ≤ 0x7f := by
          obtain ⟨hge, hle⟩ := not_or.1 hb
          exact ⟨UInt8.not_lt.1 hge, UInt8.not_lt.1 hle⟩
        simp [hb, hin]

theorem utf8EncodeChar_ascii {c : Char} (hc : c.toNat < 128) :
    String.utf8EncodeChar c = [UInt8.ofNat c.toNat] := by
  have hle : c.val ≤ 127 := UInt32.le_iff_toNat_le.2 (Nat.le_of_lt_succ hc)
  rw [String.utf8EncodeChar_eq_singleton (Char.utf8Size_eq_one_iff.2 hle)]
  rfl

/-- The encoding of a text in ASCII. -/
theorem encodeUtf8_ascii {t : Text} (ht : ∀ c ∈ t, c.toNat < 128) :
    encodeUtf8 t = t.map fun c => UInt8.ofNat c.toNat := by
  induction t with
  | nil => rfl
  | cons c t ih =>
      rw [List.forall_mem_cons] at ht
      rw [encodeUtf8, List.flatMap_cons, utf8EncodeChar_ascii ht.1, List.map_cons, ← ih ht.2]
      rfl

theorem encodeUtf8_append (s t : Text) : encodeUtf8 (s ++ t) = encodeUtf8 s ++ encodeUtf8 t :=
  List.flatMap_append

theorem toNat_ofNat_byte {b : UInt8} : (Char.ofNat b.toNat).toNat = b.toNat := by
  have hall : ∀ k < 256, (Char.ofNat k).toNat = k := by decide +kernel
  exact hall b.toNat b.toNat_lt

/-- Decoding ASCII and encoding it again. -/
theorem encodeUtf8_decodeAscii {bs : List UInt8} (h : ∀ b ∈ bs, b < 128) :
    ∃ t, decodeAscii bs = some t ∧ encodeUtf8 t = bs := by
  refine ⟨bs.map fun b => Char.ofNat b.toNat, ?_, ?_⟩
  · rw [decodeAscii, if_pos (List.all_eq_true.2 fun b hb => decide_eq_true (h b hb))]
  · rw [encodeUtf8_ascii, List.map_map]
    · refine (List.map_congr_left fun b _ => ?_).trans (List.map_id' bs)
      rw [Function.comp_apply, toNat_ofNat_byte, UInt8.ofNat_toNat]
    · intro c hc
      obtain ⟨b, hb, rfl⟩ := List.mem_map.1 hc
      rw [toNat_ofNat_byte]
      exact UInt8.lt_iff_toNat_lt.1 (h b hb)

/-! ### The match at a marker -/

/-- The text that a marker is replaced by, for a payload of eight bytes. -/
def decoded (p : List UInt8) : List UInt8 :=
  encodeUtf8 ("HEXDECODED=0x".toList ++ HexNumeral.padded 16 (HexNumeral.ofBytes p)) ++
    if isAllPrintable p then encodeUtf8 " ASCII=|".toList ++ p ++ [bar] else []

/-- **`repl_hex` on a payload of eight bytes** does not fail. -/
theorem replHex_eq {m : Match UInt8} {p : List UInt8} (hm : payload m = p) (hp : p.length = 8) :
    replHex m = some (decoded p) := by
  rw [replHex, hm, unpackQ, if_pos hp, decoded]
  by_cases hall : isAllPrintable p = true
  · have hascii : ∀ b ∈ p, b < 128 := fun b hb =>
      UInt8.lt_of_le_of_lt (isAllPrintable_iff.1 hall b hb).2 (by decide : (0x7f : UInt8) < 128)
    obtain ⟨t, ht, hencode⟩ := encodeUtf8_decodeAscii hascii
    simp only [Option.bind_eq_bind, Option.bind_some, if_pos hall, ht, encodeUtf8_append, hencode]
    rfl
  · simp only [Option.bind_eq_bind, Option.bind_some, if_neg hall, List.append_nil]

theorem first_hexPattern {p : List UInt8} (hp : p.length = 8) (l : List UInt8) :
    hexPattern.first (mark ++ (p ++ [bar]) ++ l) = some ⟨mark ++ (p ++ [bar]), [p], l⟩ := by
  have hany : (times (fun _ => true) 8).first (p ++ bar :: l) = some ⟨p, [], bar :: l⟩ := by
    rw [← hp]
    exact first_times fun _ _ => rfl
  rw [List.append_assoc, List.append_assoc]
  exact first_seq (first_lits mark) (first_seq (first_group hany) (first_lit bar))

/-- What a match looks like. -/
theorem mem_results_hexPattern {m : Match UInt8} {l : List UInt8} (h : m ∈ hexPattern.results l) :
    mark <+: l ∧ ∃ p : List UInt8, p.length = 8 ∧ payload m = p := by
  obtain ⟨m₁, hm₁, m₂, hm₂, rfl⟩ := mem_results_seq.1 h
  obtain ⟨m₃, hm₃, m₄, hm₄, rfl⟩ := mem_results_seq.1 hm₂
  obtain ⟨m₅, hm₅, rfl⟩ := mem_results_group.1 hm₃
  obtain ⟨hlength, -, -⟩ := mem_results_times hm₅
  obtain ⟨htaken, hgroups⟩ := mem_results_lits hm₁
  refine ⟨⟨m₁.rest, ?_⟩, m₅.taken, hlength, ?_⟩
  · rw [← htaken]
    exact (append_of_mem_results hm₁).symm
  · simp [payload, Match.append, hgroups]

/-! ### The logs of the firmware -/

/-- A payload. -/
structure Payload where
  bytes : List UInt8
  length_eq : bytes.length = 8

/-- Text in which no marker begins. -/
structure PlainText where
  bytes : List UInt8
  no_mark : ¬mark <:+: bytes

/-- **A log**: text, and markers with more text after each of them. -/
structure Log where
  head : PlainText
  tail : List (Payload × PlainText)

/-- The markers of a log written in some way. -/
def Log.render (log : Log) (write : Payload → List UInt8) : List UInt8 :=
  log.head.bytes ++ log.tail.flatMap fun e => write e.1 ++ e.2.bytes

/-- A marker as the firmware writes it. -/
def Payload.marker (p : Payload) : List UInt8 := mark ++ (p.bytes ++ [bar])

/-- The bytes of a log. -/
def Log.bytes (log : Log) : List UInt8 := log.render Payload.marker

/-- **What a marker is to be replaced by**: sixteen digits that spell the payload in little-endian
order, perhaps with more after them. -/
def Decodes (p : Payload) (d : List UInt8) : Prop :=
  ∃ (digits : Text) (more : List UInt8),
    d = encodeUtf8 ("HEXDECODED=0x".toList ++ digits) ++ more ∧
      digits.length = 16 ∧ (∀ c ∈ digits, HexNumeral.isDigit c = true) ∧
        HexNumeral.bytes 8 (HexNumeral.value digits) = p.bytes

theorem decodes_decoded (p : Payload) : Decodes p (decoded p.bytes) := by
  have hlt : HexNumeral.ofBytes p.bytes < 16 ^ 16 := by
    have h := HexNumeral.ofBytes_lt p.bytes
    rw [p.length_eq] at h
    exact lt_of_lt_of_eq h (by norm_num)
  refine ⟨_, _, rfl, HexNumeral.length_padded (by norm_num) hlt,
    fun c hc => HexNumeral.isDigit_of_mem_padded hc, ?_⟩
  rw [HexNumeral.value_padded, ← p.length_eq, HexNumeral.bytes_ofBytes]

/-- **No match begins in the text before a marker**, nor in the text at the end. -/
theorem first_hexPattern_text {t : PlainText} {s l : List UInt8} (hs : s ≠ [])
    (hst : s <:+ t.bytes) (hl : l = [] ∨ mark <+: l) : hexPattern.first (s ++ l) = none := by
  refine first_eq_none fun m hm => ?_
  obtain ⟨hmark, -⟩ := mem_results_hexPattern hm
  have hshort : s.length < mark.length := by
    by_contra hle
    have hpre : mark <+: s :=
      List.prefix_of_prefix_length_le hmark (List.prefix_append s l) (not_lt.1 hle)
    exact t.no_mark (hpre.isInfix.trans hst.isInfix)
  -- `HEX|` has no proper prefix that is also a suffix of it
  rcases hl with rfl | ⟨l, rfl⟩
  · exact absurd hmark.length_le (by simpa using hshort)
  · match s, hs, hshort with
    | [a], _, _ => simp [mark] at hmark
    | [a, b], _, _ => simp [mark] at hmark
    | [a, b, c], _, _ => simp [mark] at hmark

/-- One step of the script through a log: a marker and the text after it. -/
theorem sub_marker {l t : List UInt8} (p : Payload) (h : hexPattern.sub replHex l = some t) :
    hexPattern.sub replHex (p.marker ++ l) = some (decoded p.bytes ++ t) :=
  sub_of_first (first_hexPattern p.length_eq l) (List.append_ne_nil_of_left_ne_nil (by decide) _)
    (replHex_eq rfl p.length_eq) h

theorem sub_text {l u : List UInt8} (t : PlainText) (hl : l = [] ∨ mark <+: l)
    (h : hexPattern.sub replHex l = some u) :
    hexPattern.sub replHex (t.bytes ++ l) = some (t.bytes ++ u) :=
  sub_of_forall_none (fun _ hs hst => first_hexPattern_text hs hst hl) h

/-- The markers and the text after each of them, by induction on the log. -/
theorem sub_tail (tail : List (Payload × PlainText)) :
    let l := tail.flatMap fun e => e.1.marker ++ e.2.bytes
    (l = [] ∨ mark <+: l) ∧ hexPattern.sub replHex l =
      some (tail.flatMap fun e => decoded e.1.bytes ++ e.2.bytes) := by
  induction tail with
  | nil => exact ⟨.inl rfl, sub_nil⟩
  | cons e tail ih =>
      obtain ⟨hl, hsub⟩ := ih
      refine ⟨.inr ?_, ?_⟩
      · simp only [List.flatMap_cons, Payload.marker, List.append_assoc]
        exact List.prefix_append mark _
      · simp only [List.flatMap_cons, List.append_assoc]
        exact sub_marker e.1 (sub_text e.2 hl hsub)

/-- **Every marker is decoded, and nothing else is changed.** -/
theorem process_log (log : Log) :
    ∃ d : Payload → List UInt8, process (some log.bytes) = some (log.render d) ∧
      ∀ p, Decodes p (d p) := by
  obtain ⟨hl, hsub⟩ := sub_tail log.tail
  exact ⟨fun p => decoded p.bytes, sub_text log.head hl hsub, decodes_decoded⟩

/-! ### What can be printed -/

/-- A printable character of ASCII. -/
def Printable (b : UInt8) : Prop := 0x20 ≤ b ∧ b ≤ 0x7e

instance (b : UInt8) : Decidable (Printable b) := inferInstanceAs (Decidable (_ ∧ _))

/-- The replacement has the part with the characters of the payload. -/
def HasAscii (d : List UInt8) : Prop := encodeUtf8 " ASCII=|".toList <:+: d

/-- **The replacements can be printed**: every marker that is matched in the log is replaced by
characters that can be printed, with the part for the characters of the payload exactly when all of
these can be printed. -/
def MarkersPrintable (buf : List UInt8) : Prop :=
  ∀ m ∈ hexPattern.findall buf, ∃ d, replHex m = some d ∧ (∀ b ∈ d, Printable b) ∧
    (HasAscii d ↔ ∀ b ∈ payload m, Printable b)

/-- The payload of a match in a log has eight bytes. -/
theorem length_payload {buf : List UInt8} {m : Match UInt8} (hm : m ∈ hexPattern.findall buf) :
    (payload m).length = 8 := by
  obtain ⟨l, -, hl⟩ := first_of_mem_findall hm
  obtain ⟨-, p, hp, hpayload⟩ := mem_results_hexPattern (mem_results_of_first hl)
  rw [hpayload, hp]

/-- The number in a replacement can be printed, and has no blank. -/
theorem printable_number (n : ℕ) {b : UInt8}
    (hb : b ∈ encodeUtf8 ("HEXDECODED=0x".toList ++ HexNumeral.padded 16 n)) :
    Printable b ∧ b ≠ 0x20 := by
  rw [encodeUtf8_append] at hb
  rcases List.mem_append.1 hb with hb | hb
  · have hall : (encodeUtf8 "HEXDECODED=0x".toList).all
        (fun b => decide (Printable b ∧ b ≠ 0x20)) = true := by decide
    exact of_decide_eq_true (List.all_eq_true.1 hall b hb)
  · have hrange : ∀ c ∈ HexNumeral.padded 16 n, 48 ≤ c.toNat ∧ c.toNat ≤ 102 := fun c hc =>
      HexNumeral.toNat_le_of_isDigit (HexNumeral.isDigit_of_mem_padded hc)
    rw [encodeUtf8_ascii fun c hc => by have := hrange c hc; omega] at hb
    obtain ⟨c, hc, rfl⟩ := List.mem_map.1 hb
    obtain ⟨hge, hle⟩ := hrange c hc
    have hbyte : ∀ k < 103, 48 ≤ k → Printable (UInt8.ofNat k) ∧ UInt8.ofNat k ≠ 0x20 := by
      decide
    exact hbyte c.toNat (Nat.lt_succ_of_le hle) hge

/-- A replacement without the part for the characters. -/
theorem decoded_of_not_allPrintable {p : List UInt8} (h : isAllPrintable p ≠ true) :
    (∀ b ∈ decoded p, Printable b) ∧ ¬HasAscii (decoded p) := by
  rw [decoded, if_neg h, List.append_nil]
  refine ⟨fun b hb => (printable_number _ hb).1, fun hascii => ?_⟩
  have hblank : (0x20 : UInt8) ∈ encodeUtf8 " ASCII=|".toList := by decide
  exact (printable_number _ (hascii.subset hblank)).2 rfl

/-- A replacement with the part for the characters. -/
theorem decoded_of_allPrintable {p : List UInt8} (h : isAllPrintable p = true) :
    ((∀ b ∈ decoded p, Printable b) ↔ ∀ b ∈ p, Printable b) ∧ HasAscii (decoded p) := by
  rw [decoded, if_pos h]
  have hall : (encodeUtf8 " ASCII=|".toList).all (fun b => decide (Printable b)) = true := by
    decide
  have hascii : ∀ b ∈ encodeUtf8 " ASCII=|".toList, Printable b := fun b hb =>
    of_decide_eq_true (List.all_eq_true.1 hall b hb)
  refine ⟨⟨fun hall b hb => hall b (by simp [hb]), fun hall b hb => ?_⟩, ?_⟩
  · simp only [List.mem_append, List.mem_singleton] at hb
    rcases hb with hb | (hb | hb) | rfl
    · exact (printable_number _ hb).1
    · exact hascii b hb
    · exact hall b hb
    · decide
  · rw [List.append_assoc, ← List.append_assoc]
    exact ⟨_, _, rfl⟩

/-- The printable characters are those that the script takes for printable, without `DEL`. -/
theorem forall_printable_iff {p : List UInt8} :
    (∀ b ∈ p, Printable b) ↔ isAllPrintable p = true ∧ 0x7f ∉ p := by
  have hbyte : ∀ b : UInt8, Printable b ↔ (0x20 ≤ b ∧ b ≤ 0x7f) ∧ b ≠ 0x7f := by
    intro b
    simp only [Printable, UInt8.le_iff_toNat_le, ne_eq, ← UInt8.toNat_inj]
    change 32 ≤ b.toNat ∧ b.toNat ≤ 126 ↔
      (32 ≤ b.toNat ∧ b.toNat ≤ 127) ∧ ¬b.toNat = 127
    omega
  rw [isAllPrintable_iff]
  constructor
  · intro h
    exact ⟨fun b hb => ((hbyte b).1 (h b hb)).1, fun hmem => ((hbyte 0x7f).1 (h 0x7f hmem)).2 rfl⟩
  · rintro ⟨h, hdel⟩ b hb
    exact (hbyte b).2 ⟨h b hb, fun heq => hdel (heq ▸ hb)⟩

/-- **The replacements can be printed exactly when no payload that is printed has a `DEL`**: no
marker that is matched in the log has a payload of characters from the blank to `DEL` with a `DEL`
among them. -/
theorem markersPrintable_iff (buf : List UInt8) :
    MarkersPrintable buf ↔ ∀ m ∈ hexPattern.findall buf,
      (∀ b ∈ payload m, 0x20 ≤ b ∧ b ≤ 0x7f) → 0x7f ∉ payload m := by
  refine forall₂_congr fun m hm => ?_
  have hreplace : replHex m = some (decoded (payload m)) := replHex_eq rfl (length_payload hm)
  rw [← isAllPrintable_iff, hreplace]
  simp only [Option.some.injEq, exists_eq_left', forall_printable_iff (p := payload m)]
  by_cases hall : isAllPrintable (payload m) = true
  · obtain ⟨hprint, hascii⟩ := decoded_of_allPrintable hall
    rw [hprint, forall_printable_iff]
    tauto
  · obtain ⟨hprint, hascii⟩ := decoded_of_not_allPrintable hall
    tauto

/-- Seven letters and a `DEL`. -/
def delPayload : List UInt8 := [0x41, 0x41, 0x41, 0x41, 0x41, 0x41, 0x41, 0x7f]

/-- The `DEL` is written out as it is. -/
theorem not_markersPrintable_delPayload : ¬MarkersPrintable (mark ++ (delPayload ++ [bar])) := by
  intro h
  have hfirst := first_hexPattern (p := delPayload) rfl []
  rw [List.append_nil] at hfirst
  rw [MarkersPrintable, findall_of_first hfirst (by decide)] at h
  obtain ⟨d, hd, hprint, -⟩ := h _ List.mem_cons_self
  obtain rfl := Option.some.inj ((replHex_eq rfl rfl).symm.trans hd)
  have hpayload := (decoded_of_allPrintable (p := delPayload) (by decide)).1.1 hprint
  exact absurd (hpayload 0x7f (by decide)) (by decide)

end OvmfLog
