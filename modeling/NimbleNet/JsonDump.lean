import NimbleNet.PartialMaps
import NimbleNet.RecognisedTexts
import NimbleNet.ResourceManagerStructs

/-! `dump()` of flat JSON values whose strings are bytes: its UTF-8 decoder, the escapes, and
the three ways to handle a byte that is not UTF-8. An exception is none. The header that the
build includes has error_handler_t::replace as its default, so no dump() of the SDK throws. -/
namespace NimbleNet.JsonDump
open MachineNumbers PartialMaps RecognisedTexts

/- The type of each byte, then the next state for each state and type. -/
def utf8d : List Nat :=
  List.replicate 128 0 ++ -- 00..7F
  List.replicate 16 1 ++ List.replicate 16 9 ++ -- 80..9F
  List.replicate 32 7 ++ -- A0..BF
  [8,8] ++ List.replicate 30 2 ++ -- C0..DF
  [0xA,3,3,3,3,3,3,3,3,3,3,3,3,4,3,3] ++ -- E0..EF
  [0xB,6,6,6,5,8,8,8,8,8,8,8,8,8,8,8] ++ -- F0..FF
  [0,1,2,3,5,8,7,1,1,1,4,6,1,1,1,1] ++ -- s0
  [1,1,1,1,1,1,1,1,1,1,1,1,1,1,1,1] ++ -- s1
  [1,0,1,1,1,1,1,0,1,0,1,1,1,1,1,1] ++ -- s2
  [1,2,1,1,1,1,1,2,1,2,1,1,1,1,1,1] ++ -- s3
  [1,1,1,1,1,1,1,2,1,1,1,1,1,1,1,1] ++ -- s4
  [1,2,1,1,1,1,1,1,1,2,1,1,1,1,1,1] ++ -- s5
  [1,1,1,1,1,1,1,3,1,3,1,1,1,1,1,1] ++ -- s6
  [1,3,1,1,1,1,1,3,1,3,1,1,1,1,1,1] ++ -- s7
  [1,3,1,1,1,1,1,1,1,1,1,1,1,1,1,1] -- s8

abbrev DecodeState := Fin 9

def UTF8_ACCEPT : DecodeState := 0
def UTF8_REJECT : DecodeState := 1

def decode (state : DecodeState) (byte : UInt8) : DecodeState :=
  Fin.ofNat 9 (utf8d.getD (256 + state * 16 + utf8d.getD byte.toNat 0) 0)

inductive ErrorHandler where
  | strict
  | replace
  | ignore
  deriving DecidableEq

def ascii (s : String) : Bytes := s.toList.map (fun c => UInt8.ofNat c.toNat)

def hexDigit (n : Nat) : UInt8 := UInt8.ofNat (if n < 10 then 48 + n else 87 + n)

/- What is written for a byte. The bytes of a longer code point are copied one by one. -/
def escapeByte (byte : UInt8) : Bytes :=
  if byte = 0x08 then ascii "\\b"
  else if byte = 0x09 then ascii "\\t"
  else if byte = 0x0A then ascii "\\n"
  else if byte = 0x0C then ascii "\\f"
  else if byte = 0x0D then ascii "\\r"
  else if byte = 0x22 then ascii "\\\""
  else if byte = 0x5C then ascii "\\\\"
  else if byte ≤ 0x1F then ascii "\\u00" ++ [hexDigit (byte.toNat / 16),hexDigit (byte.toNat % 16)]
  else [byte]

/- `dumped`: the output up to the last code point that was accepted. `undumped`: the bytes
that were copied behind it. -/
structure Dumping where
  dumped : Bytes
  undumped : Bytes
  state : DecodeState

def replacement (errorHandler : ErrorHandler) : Bytes := if errorHandler = .replace then [0xEF,0xBF,0xBD] else []

/- One pass of dump_escaped. The second component is `--i`: the byte is not UTF-8 behind the
bytes before it, and it is read again for itself. -/
def dumpByte (errorHandler : ErrorHandler) (d : Dumping) (byte : UInt8) : Option (Dumping × Bool) :=
  let state := decode d.state byte
  if state = UTF8_ACCEPT then some (⟨d.dumped ++ d.undumped ++ escapeByte byte,[],UTF8_ACCEPT⟩,false)
  else if state = UTF8_REJECT then
    if errorHandler = .strict then none
    else some (⟨d.dumped ++ replacement errorHandler,[],UTF8_ACCEPT⟩,!d.undumped.isEmpty)
  else some (⟨d.dumped,d.undumped ++ [byte],state⟩,false)

-- nothing is copied when a byte is read again, so it is not read a third time
def readByte (errorHandler : ErrorHandler) (d : Dumping) (byte : UInt8) : Option Dumping := do
  let (d,again) ← dumpByte errorHandler d byte
  if again then (dumpByte errorHandler d byte).map Prod.fst else some d

def dumpEscaped (errorHandler : ErrorHandler) (s : Bytes) : Option Bytes := do
  let d ← s.foldlM (readByte errorHandler) ⟨[],[],UTF8_ACCEPT⟩
  if d.state = UTF8_ACCEPT then some (d.dumped ++ d.undumped)
  else if errorHandler = .strict then none
  else some (d.dumped ++ replacement errorHandler)

inductive Value where
  | string (s : Bytes)
  | integer (z : Int)

-- the default argument of dump
def errorHandler : ErrorHandler := .replace

def dumpValue : Value → Option Bytes
  | .string s => do
      let text ← dumpEscaped errorHandler s
      some (ascii "\"" ++ text ++ ascii "\"")
  | .integer z => some (ascii (toString z))

abbrev Object := List (String × Value)

def dumpMember (item : String × Value) : Option Bytes := do
  let key ← dumpValue (.string (ascii item.1))
  let value ← dumpValue item.2
  some (key ++ ascii ":" ++ value)

def dumpObject (o : Object) : Option Bytes := do
  let members ← o.mapM dumpMember
  some (ascii "\x7b" ++ (ascii ",").intercalate members ++ ascii "\x7d")

def dumpArray (elements : List Object) : Option Bytes := do
  let texts ← elements.mapM dumpObject
  some (ascii "[" ++ (ascii ",").intercalate texts ++ ascii "]")

section Texts

def decodeStrict (state : DecodeState) (byte : UInt8) : Option DecodeState :=
  if decode state byte = UTF8_REJECT then none else some (decode state byte)

abbrev Utf8 (s : Bytes) : Prop := Recognises decodeStrict UTF8_ACCEPT s

theorem ofByte {P : UInt8 → Prop} (each : ∀ n : Fin 256, P (UInt8.ofNat n)) (byte : UInt8) : P byte := by
  have here := each ⟨byte.toNat,byte.toNat_lt⟩
  rwa [UInt8.ofNat_toNat] at here

theorem asciiKeeps : ∀ byte : UInt8, byte < 128 → decodeStrict UTF8_ACCEPT byte = some UTF8_ACCEPT :=
  ofByte (by decide +kernel)

theorem escapesSame (state : DecodeState) (byte : UInt8) : (escapeByte byte).foldlM decodeStrict state = decodeStrict state byte := by
  have each : ∀ byte : UInt8, ∀ state, (escapeByte byte).foldlM decodeStrict state = decodeStrict state byte :=
    ofByte (by decide +kernel)
  exact each byte state

theorem asciiUtf8 {s : String} (plain : ∀ c ∈ s.toList, c.toNat < 128) : Utf8 (ascii s) := by
  refine recognisesPlain (fun byte inside => ?_)
  obtain ⟨c,member,rfl⟩ := List.mem_map.mp inside
  have small := plain c member
  refine asciiKeeps _ (UInt8.lt_iff_toNat_lt.mpr ?_)
  rw [UInt8.toNat_ofNat_of_lt' (small.trans (by decide))]
  exact small

theorem intAscii (z : Int) : ∀ c ∈ (toString z).toList, c.toNat < 128 := by
  intro c member
  by_contra large
  have notDigit : c.isDigit = false := by
    rw [Bool.eq_false_iff]
    intro digit
    have range := (Char.isDigit_iff_toNat.mp digit).2
    simp only [Char.reduceToNat] at range
    omega
  exact intTextFree notDigit (fun same => by rw [same] at large; exact large (by decide)) z member

structure Dumping.Valid (d : Dumping) : Prop where
  dumped : Utf8 d.dumped
  undumped : d.undumped.foldlM decodeStrict UTF8_ACCEPT = some d.state

theorem dumpByteValid {d : Dumping} (valid : d.Valid) (byte : UInt8) :
    ∃ next again, dumpByte .replace d byte = some (next,again) ∧ next.Valid := by
  have decoded (accepts : decode d.state byte ≠ UTF8_REJECT) : decodeStrict d.state byte = some (decode d.state byte) :=
    if_neg accepts
  simp only [dumpByte,reduceCtorEq,if_false]
  split
  · rename_i accepts
    refine ⟨_,_,rfl,⟨?_,rfl⟩⟩
    rw [List.append_assoc]
    refine recognisesAppend valid.dumped ?_
    rw [Recognises,List.foldlM_append,valid.undumped]
    exact (escapesSame d.state byte).trans ((decoded (by rw [accepts]; decide)).trans (congrArg some accepts))
  · split
    · exact ⟨_,_,rfl,⟨recognisesAppend valid.dumped (by decide +kernel),rfl⟩⟩
    · rename_i accepts
      refine ⟨_,_,rfl,⟨valid.dumped,?_⟩⟩
      rw [List.foldlM_append,valid.undumped]
      simp [decoded accepts]

theorem readByteValid {d : Dumping} (valid : d.Valid) (byte : UInt8) :
    ∃ next, readByte .replace d byte = some next ∧ next.Valid := by
  obtain ⟨first,again,read,valid'⟩ := dumpByteValid valid byte
  obtain ⟨second,_,reread,valid''⟩ := dumpByteValid valid' byte
  simp only [readByte,read,Option.bind_eq_bind,Option.bind_some,reread,Option.map_some]
  split
  · exact ⟨second,rfl,valid''⟩
  · exact ⟨first,rfl,valid'⟩

theorem readValid {d : Dumping} (valid : d.Valid) (s : Bytes) : ∃ next, s.foldlM (readByte .replace) d = some next ∧ next.Valid := by
  induction s generalizing d with
  | nil => exact ⟨d,rfl,valid⟩
  | cons byte rest ih =>
      obtain ⟨middle,read,valid'⟩ := readByteValid valid byte
      obtain ⟨next,later,valid''⟩ := ih valid'
      exact ⟨next,by rw [List.foldlM_cons,read]; exact later,valid''⟩

theorem dumpEscapedUtf8 (s : Bytes) : ∃ text, dumpEscaped .replace s = some text ∧ Utf8 text := by
  obtain ⟨d,read,valid⟩ := readValid (d := ⟨[],[],UTF8_ACCEPT⟩) ⟨recognisesNil,rfl⟩ s
  rw [dumpEscaped,read,Option.bind_eq_bind,Option.bind_some]
  split
  · rename_i accepts
    refine ⟨_,rfl,recognisesAppend valid.dumped ?_⟩
    rw [Recognises,valid.undumped,accepts]
  · exact ⟨_,rfl,recognisesAppend valid.dumped (by decide +kernel)⟩

theorem dumpValueUtf8 (v : Value) : ∃ text, dumpValue v = some text ∧ Utf8 text := by
  have quote : Utf8 (ascii "\"") := asciiUtf8 (by simp)
  cases v with
  | integer z => exact ⟨_,rfl,asciiUtf8 (intAscii z)⟩
  | string s =>
      obtain ⟨text,dumped,valid⟩ := dumpEscapedUtf8 s
      exact ⟨_,by rw [dumpValue,errorHandler,dumped]; rfl,recognisesAppend (recognisesAppend quote valid) quote⟩

theorem dumpMemberUtf8 (item : String × Value) : ∃ text, dumpMember item = some text ∧ Utf8 text := by
  have colon : Utf8 (ascii ":") := asciiUtf8 (by simp)
  obtain ⟨key,named,first⟩ := dumpValueUtf8 (.string (ascii item.1))
  obtain ⟨value,dumped,second⟩ := dumpValueUtf8 item.2
  exact ⟨_,by rw [dumpMember,named,dumped]; rfl,recognisesAppend (recognisesAppend first colon) second⟩

theorem dumpObjectUtf8 (o : Object) : ∃ text, dumpObject o = some text ∧ Utf8 text := by
  have opens : Utf8 (ascii "\x7b") := asciiUtf8 (by simp)
  have comma : Utf8 (ascii ",") := asciiUtf8 (by simp)
  have closes : Utf8 (ascii "\x7d") := asciiUtf8 (by simp)
  have each : ∀ item ∈ o, ∃ text, dumpMember item = some text ∧ Utf8 text := fun item _ => dumpMemberUtf8 item
  obtain ⟨members,dumped,valid⟩ := mapMAll each
  exact ⟨_,by rw [dumpObject,dumped]; rfl,
    recognisesAppend (recognisesAppend opens (recognisesJoin comma valid)) closes⟩

theorem dumpArrayUtf8 (elements : List Object) : ∃ text, dumpArray elements = some text ∧ Utf8 text := by
  have opens : Utf8 (ascii "[") := asciiUtf8 (by simp)
  have comma : Utf8 (ascii ",") := asciiUtf8 (by simp)
  have closes : Utf8 (ascii "]") := asciiUtf8 (by simp)
  have each : ∀ o ∈ elements, ∃ text, dumpObject o = some text ∧ Utf8 text := fun o _ => dumpObjectUtf8 o
  obtain ⟨texts,dumped,valid⟩ := mapMAll each
  exact ⟨_,by rw [dumpArray,dumped]; rfl,
    recognisesAppend (recognisesAppend opens (recognisesJoin comma valid)) closes⟩

example : dumpEscaped errorHandler [0xE2,0x82,0x41] = some [0xEF,0xBF,0xBD,0x41] ∧ dumpEscaped .strict [0xE2,0x82,0x41] = none ∧
    dumpEscaped .ignore [0xE2,0x82,0x41] = some [0x41] := by decide +kernel

end Texts
end NimbleNet.JsonDump
