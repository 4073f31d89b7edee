import NimbleNet.GroupedStream
import NimbleNet.MachineNumbers
import NimbleNet.PartialMaps

/-! The base64 encoder and decoder, byte by byte. A char is signed or unsigned, and every
char is widened to an int before it is shifted. -/
namespace NimbleNet.Base64
open GroupedStream MachineNumbers

inductive CharSign where
  | signed
  | unsigned
  deriving DecidableEq, Repr

abbrev BYTE := BitVec 8

def widen (sign : CharSign) (w : Nat) (c : BYTE) : BitVec w :=
  match sign with
  | .signed => c.signExtend w
  | .unsigned => c.setWidth w

def narrow (x : BitVec 32) : BYTE := x.setWidth 8

def charCode (c : Char) : BYTE := BitVec.ofNat 8 c.toNat

def base64Chars : List BYTE :=
  ("ABCDEFGHIJKLMNOPQRSTUVWXYZ" ++ "abcdefghijklmnopqrstuvwxyz" ++ "0123456789+/").toList.map charCode

def isalnum (x : Int) : Bool := (48 ≤ x ∧ x ≤ 57) ∨ (65 ≤ x ∧ x ≤ 90) ∨ (97 ≤ x ∧ x ≤ 122)

def isBase64 (sign : CharSign) (c : BYTE) : Bool :=
  isalnum (widen sign 32 c).toInt || c == charCode '+' || c == charCode '/'

def charAt (sign : CharSign) (c : BYTE) : Option BYTE := base64Chars[(widen sign 64 c).toNat]?

def find (c : BYTE) : BYTE := BitVec.ofNat 8 ((base64Chars.idxOf? c).getD (2 ^ 64 - 1))

def packed (sign : CharSign) : List BYTE → List BYTE
  | [a,b,c] =>
      let a := widen sign 32 a
      let b := widen sign 32 b
      let c := widen sign 32 c
      [narrow ((a &&& 0xfc).sshiftRight 2),narrow (((a &&& 0x03) <<< 4) + (b &&& 0xf0).sshiftRight 4),
        narrow (((b &&& 0x0f) <<< 2) + (c &&& 0xc0).sshiftRight 6),narrow (c &&& 0x3f)]
  | _ => []

def unpacked (sign : CharSign) : List BYTE → List BYTE
  | [a,b,c,d] =>
      let a := widen sign 32 a
      let b := widen sign 32 b
      let c := widen sign 32 c
      let d := widen sign 32 d
      [narrow ((a <<< 2) + (b &&& 0x30).sshiftRight 4),narrow (((b &&& 0xf) <<< 4) + (c &&& 0x3c).sshiftRight 2),
        narrow (((c &&& 0x3) <<< 6) + d)]
  | _ => []

def encodeGroup (sign : CharSign) (group : List BYTE) : Option (List BYTE) := (packed sign group).mapM (charAt sign)

/- The bytes that are held are char_array_3 up to i. A read past the buffer is undefined. -/
def encodeLoop (sign : CharSign) : Nat → List BYTE → List BYTE × List BYTE → Option (List BYTE × List BYTE)
  | 0,_,state => some state
  | _ + 1,[],_ => none
  | bufLen + 1,byte :: buf,state => do
      let next ← feed 3 (encodeGroup sign) state byte
      encodeLoop sign bufLen buf next

def encodeLast (sign : CharSign) : List BYTE × List BYTE → Option (List BYTE)
  | ([],ret) => some ret
  | (held,ret) => do
      let i := held.length
      let chars ← ((packed sign (held ++ List.replicate (3 - i) 0)).take (i + 1)).mapM (charAt sign)
      some (ret ++ chars ++ List.replicate (3 - i) (charCode '='))

def base64Encode (sign : CharSign) (buf : List BYTE) (bufLen : Nat) : Option (List BYTE) := do
  let state ← encodeLoop sign bufLen buf ([],[])
  encodeLast sign state

def decodeGroup (sign : CharSign) (group : List BYTE) : List BYTE := unpacked sign (group.map find)

/- The text is what is left from `in_` on; behind it the string reads '\0'. Neither int may
overflow. -/
def decodeLoop (sign : CharSign) : List BYTE → Int → Int → List BYTE × List BYTE → Option (List BYTE × List BYTE)
  | text,inLen,at',state =>
      if inLen = -2 ^ 31 then none
      else if inLen = 0 then some state
      else match text with
        | [] => some state
        | c :: rest =>
            if c ≠ charCode '=' ∧ isBase64 sign c = true then do
              let next ← feed 4 (fun group => some (decodeGroup sign group)) state c
              if at' = 2 ^ 31 - 1 then none else decodeLoop sign rest (inLen - 1) (at' + 1) next
            else some state

def decodeLast (sign : CharSign) : List BYTE × List BYTE → List BYTE
  | ([],ret) => ret
  | (held,ret) => ret ++ (decodeGroup sign (held ++ List.replicate (4 - held.length) 0)).take (held.length - 1)

def base64Decode (sign : CharSign) (encodedString : List BYTE) : Option (List BYTE) := do
  let state ← decodeLoop sign encodedString (wrap32 encodedString.length) 0 ([],[])
  some (decodeLast sign state)

section Bits
variable (sign : CharSign)

theorem base64Fold : ∀ c : BYTE, c ≠ charCode '=' ∧ isBase64 sign c = true ↔ c ∈ base64Chars := by
  cases sign <;> decide +kernel

theorem encodeMasks : ∀ a : BYTE,
    (widen sign 32 a &&& 0xfc).sshiftRight 2 = BitVec.ofNat 32 (a.toNat / 4) ∧
    (widen sign 32 a &&& 0x03) <<< 4 = BitVec.ofNat 32 (a.toNat % 4 * 16) ∧
    (widen sign 32 a &&& 0xf0).sshiftRight 4 = BitVec.ofNat 32 (a.toNat / 16) ∧
    (widen sign 32 a &&& 0x0f) <<< 2 = BitVec.ofNat 32 (a.toNat % 16 * 4) ∧
    (widen sign 32 a &&& 0xc0).sshiftRight 6 = BitVec.ofNat 32 (a.toNat / 64) ∧
    widen sign 32 a &&& 0x3f = BitVec.ofNat 32 (a.toNat % 64) := by
  cases sign <;> decide +kernel

theorem decodeMasks : ∀ a : BYTE, a.toNat < 64 →
    widen sign 32 a <<< 2 = BitVec.ofNat 32 (a.toNat * 4) ∧
    (widen sign 32 a &&& 0x30).sshiftRight 4 = BitVec.ofNat 32 (a.toNat / 16) ∧
    (widen sign 32 a &&& 0xf) <<< 4 = BitVec.ofNat 32 (a.toNat % 16 * 16) ∧
    (widen sign 32 a &&& 0x3c).sshiftRight 2 = BitVec.ofNat 32 (a.toNat / 4) ∧
    (widen sign 32 a &&& 0x3) <<< 6 = BitVec.ofNat 32 (a.toNat % 4 * 64) ∧
    widen sign 32 a = BitVec.ofNat 32 a.toNat := by
  cases sign <;> decide +kernel

theorem narrowOfNat (n : Nat) : narrow (BitVec.ofNat 32 n) = BitVec.ofNat 8 n := BitVec.setWidth_ofNat_of_le (by decide) n

theorem packedBytes (a b c : BYTE) : packed sign [a,b,c] =
    [BitVec.ofNat 8 (a.toNat / 4),BitVec.ofNat 8 (a.toNat % 4 * 16 + b.toNat / 16),
      BitVec.ofNat 8 (b.toNat % 16 * 4 + c.toNat / 64),BitVec.ofNat 8 (c.toNat % 64)] := by
  obtain ⟨a0,a1,-,-,-,-⟩ := encodeMasks sign a
  obtain ⟨-,-,b1,b2,-,-⟩ := encodeMasks sign b
  obtain ⟨-,-,-,-,c2,c3⟩ := encodeMasks sign c
  simp only [packed,a0,a1,b1,b2,c2,c3,← BitVec.ofNat_add,narrowOfNat]

theorem unpackedBytes {a b c d : BYTE} (a64 : a.toNat < 64) (b64 : b.toNat < 64) (c64 : c.toNat < 64) (d64 : d.toNat < 64) :
    unpacked sign [a,b,c,d] = [BitVec.ofNat 8 (a.toNat * 4 + b.toNat / 16),BitVec.ofNat 8 (b.toNat % 16 * 16 + c.toNat / 4),
      BitVec.ofNat 8 (c.toNat % 4 * 64 + d.toNat)] := by
  obtain ⟨a0,-,-,-,-,-⟩ := decodeMasks sign a a64
  obtain ⟨-,b0,b1,-,-,-⟩ := decodeMasks sign b b64
  obtain ⟨-,-,-,c1,c2,-⟩ := decodeMasks sign c c64
  obtain ⟨-,-,-,-,-,d2⟩ := decodeMasks sign d d64
  simp only [unpacked,a0,b0,b1,c1,c2,d2,← BitVec.ofNat_add,narrowOfNat]

def letter (c : BYTE) : BYTE := base64Chars.getD c.toNat 0

theorem lettersFound : ∀ c : BYTE, c.toNat < 64 → charAt sign c = some (letter c) ∧ find (letter c) = c ∧ letter c ∈ base64Chars := by
  cases sign <;> decide +kernel

theorem packedSmall (group : List BYTE) : ∀ x ∈ packed sign group, x.toNat < 64 := by
  match group with
  | [a,b,c] =>
      rw [packedBytes]
      simp only [List.forall_mem_cons,BitVec.toNat_ofNat]
      have := a.isLt
      have := b.isLt
      have := c.isLt
      exact ⟨by omega,by omega,by omega,by omega,fun _ inside => nomatch inside⟩
  | [] | [_] | [_,_] | _ :: _ :: _ :: _ :: _ => exact fun _ inside => nomatch inside

theorem lettersRead {group : List BYTE} (small : ∀ x ∈ group, x.toNat < 64) : group.mapM (charAt sign) = some (group.map letter) := by
  refine PartialMaps.eachMapM (List.forall₂_map_right_iff.mpr (List.forall₂_same.mpr (fun x inside => ?_)))
  exact (lettersFound sign x (small x inside)).1

theorem unpackPack (a b c : BYTE) : ∃ p q r s, packed sign [a,b,c] = [p,q,r,s] ∧ unpacked sign [p,q,r,s] = [a,b,c] ∧
    find (letter p) = p ∧ find (letter q) = q ∧ find (letter r) = r ∧ find (letter s) = s := by
  have small := packedSmall sign [a,b,c]
  rw [packedBytes] at small
  simp only [List.forall_mem_cons] at small
  obtain ⟨p64,q64,r64,s64,-⟩ := small
  refine ⟨_,_,_,_,packedBytes sign a b c,?_,(lettersFound sign _ p64).2.1,(lettersFound sign _ q64).2.1,
    (lettersFound sign _ r64).2.1,(lettersFound sign _ s64).2.1⟩
  rw [unpackedBytes sign p64 q64 r64 s64]
  have := a.isLt
  have := b.isLt
  have := c.isLt
  simp only [BitVec.toNat_ofNat,List.cons.injEq,and_true]
  refine ⟨?_,?_,?_⟩ <;> apply BitVec.eq_of_toNat_eq <;> rw [BitVec.toNat_ofNat] <;> omega

end Bits

section RoundTrip
variable (sign : CharSign)

def encodedGroup (group : List BYTE) : List BYTE := (packed sign group).map letter

def encodedRest (held : List BYTE) : List BYTE :=
  if held = [] then [] else ((packed sign (held ++ List.replicate (3 - held.length) 0)).take (held.length + 1)).map letter

def encoded (buf : List BYTE) : List BYTE := grouped 3 (encodedGroup sign) (encodedRest sign) buf

def padding (rest : Nat) : List BYTE := if rest = 0 then [] else List.replicate (3 - rest) (charCode '=')

theorem encodeLoopRuns (buf : List BYTE) (state : List BYTE × List BYTE) :
    encodeLoop sign buf.length buf state = buf.foldlM (feed 3 (encodeGroup sign)) state := by
  induction buf generalizing state with
  | nil => rfl
  | cons byte buf ih => simp only [List.length_cons,encodeLoop,List.foldlM_cons,ih]

theorem base64EncodeRuns (buf : List BYTE) :
    base64Encode sign buf buf.length = some (encoded sign buf ++ padding (buf.length % 3)) := by
  have groups : ∀ g : List BYTE, g.length = 3 → encodeGroup sign g = some (encodedGroup sign g) := fun g _ =>
    lettersRead sign (packedSmall sign g)
  have lasts : ∀ held out : List BYTE, held.length < 3 →
      encodeLast sign (held,out) = some (out ++ (encodedRest sign held ++ padding held.length)) := by
    intro held out _
    cases held with
    | nil => simp [encodeLast,encodedRest,padding]
    | cons byte held =>
        have small : ∀ x ∈ (packed sign (byte :: held ++ List.replicate (3 - (byte :: held).length) 0)).take ((byte :: held).length + 1),
            x.toNat < 64 := fun x inside => packedSmall sign _ x (List.mem_of_mem_take inside)
        have read := lettersRead sign small
        rw [List.length_cons] at read
        simp only [encodeLast,encodedRest,padding,read,bind,Option.bind_some,List.length_cons,reduceCtorEq,if_false,
          Nat.add_one_ne_zero,List.append_assoc]
  have whole := feedRuns (by decide) groups lasts buf []
  rw [groupedPadded (by decide),List.nil_append] at whole
  rw [base64Encode,encodeLoopRuns]
  exact whole

def decodedRest (held : List BYTE) : List BYTE :=
  (decodeGroup sign (held ++ List.replicate (4 - held.length) 0)).take (held.length - 1)

def decoded (chars : List BYTE) : List BYTE := grouped 4 (decodeGroup sign) (decodedRest sign) chars

theorem encodedGroupLength {group : List BYTE} (size : group.length = 3) : (encodedGroup sign group).length = 4 := by
  obtain ⟨a,b,c,rfl⟩ := List.length_eq_three.mp size
  rw [encodedGroup,packedBytes]
  rfl

theorem groupBack {group : List BYTE} (size : group.length = 3) : decodeGroup sign (encodedGroup sign group) = group := by
  obtain ⟨a,b,c,rfl⟩ := List.length_eq_three.mp size
  obtain ⟨p,q,r,s,made,back,fp,fq,fr,fs⟩ := unpackPack sign a b c
  simp only [encodedGroup,decodeGroup,made,List.map_cons,List.map_nil,fp,fq,fr,fs,back]

theorem restBack {held : List BYTE} (few : held.length < 3) :
    (encodedRest sign held).length < 4 ∧ decodedRest sign (encodedRest sign held) = held := by
  match held with
  | [] => exact ⟨by simp [encodedRest],by simp [encodedRest,decodedRest]⟩
  | [a] =>
      obtain ⟨p,q,r,s,made,back,fp,fq,-⟩ := unpackPack sign a 0 0
      have chars : encodedRest sign [a] = [letter p,letter q] := by
        show ((packed sign [a,0,0]).take 2).map letter = _
        rw [made]
        rfl
      have bytes : decodedRest sign [letter p,letter q] = (unpacked sign [p,q,find 0,find 0]).take 1 := by
        show (unpacked sign [find (letter p),find (letter q),find 0,find 0]).take 1 = _
        rw [fp,fq]
      have first := congrArg (List.take 1) back
      simp only [unpacked,List.take_succ_cons,List.take_zero] at bytes first
      exact ⟨by simp [chars],by rw [chars,bytes,first]⟩
  | [a,b] =>
      obtain ⟨p,q,r,s,made,back,fp,fq,fr,-⟩ := unpackPack sign a b 0
      have chars : encodedRest sign [a,b] = [letter p,letter q,letter r] := by
        show ((packed sign [a,b,0]).take 3).map letter = _
        rw [made]
        rfl
      have bytes : decodedRest sign [letter p,letter q,letter r] = (unpacked sign [p,q,r,find 0]).take 2 := by
        show (unpacked sign [find (letter p),find (letter q),find (letter r),find 0]).take 2 = _
        rw [fp,fq,fr]
      have first := congrArg (List.take 2) back
      simp only [unpacked,List.take_succ_cons,List.take_zero] at bytes first
      exact ⟨by simp [chars],by rw [chars,bytes,first]⟩

theorem decodedEncoded (buf : List BYTE) : decoded sign (encoded sign buf) = buf :=
  groupedInverse (by decide) (by decide) (fun _ size => ⟨encodedGroupLength sign size,groupBack sign size⟩) (fun _ => restBack sign) buf

theorem encodedAlphabet (buf : List BYTE) : ∀ c ∈ encoded sign buf, c ∈ base64Chars := by
  have letters : ∀ group x, x ∈ (packed sign group).map letter → x ∈ base64Chars := by
    intro group x inside
    obtain ⟨index,member,rfl⟩ := List.mem_map.mp inside
    exact (lettersFound sign index (packedSmall sign group index member)).2.2
  refine groupedAll (by decide) (fun g _ => letters g) (fun g _ x inside => ?_) buf
  rw [encodedRest] at inside
  split at inside
  · contradiction
  · rw [List.map_take] at inside
    exact letters _ x (List.mem_of_mem_take inside)

theorem encodedLength (buf : List BYTE) :
    (encoded sign buf).length = 4 * (buf.length / 3) + if buf.length % 3 = 0 then 0 else buf.length % 3 + 1 := by
  refine groupedLength (fun k => if k = 0 then 0 else k + 1) (by decide) (fun g size => encodedGroupLength sign size) (fun g few => ?_) buf
  match g with
  | [] => simp [encodedRest]
  | [a] => simp [encodedRest,packed]
  | [a,b] => simp [encodedRest,packed]

theorem decodedLength (chars : List BYTE) : (decoded sign chars).length = 3 * chars.length / 4 := by
  have groups : ∀ g : List BYTE, g.length = 4 → (decodeGroup sign g).length = 3 := by
    intro g size
    match g with
    | [a,b,c,d] => rfl
  have rests : ∀ g : List BYTE, g.length < 4 → (decodedRest sign g).length = g.length - 1 := by
    intro g few
    rw [decodedRest,List.length_take,groups _ (by simp; omega)]
    omega
  rw [decoded,groupedLength (fun k => k - 1) (by decide) groups rests chars]
  omega

def charsRead (inLen : Int) (k : Nat) : Option Nat :=
  if 0 ≤ inLen then some (min k inLen.toNat) else if (k : Int) < inLen + 2 ^ 31 then some k else none

def alphabetPrefix (text : List BYTE) : List BYTE := text.takeWhile (· ∈ base64Chars)

theorem charsReadNone {inLen : Int} (low : -2 ^ 31 ≤ inLen) : charsRead inLen 0 = if inLen = -2 ^ 31 then none else some 0 := by
  unfold charsRead
  split_ifs <;> first | omega | simp

theorem charsReadMore {inLen : Int} {k : Nat} (some' : inLen ≠ 0) (low : -2 ^ 31 < inLen) :
    charsRead inLen (k + 1) = (charsRead (inLen - 1) k).map (· + 1) := by
  unfold charsRead
  split_ifs <;> first | omega | simp only [Option.map_some,Option.map_none,Option.some.injEq]
  omega

theorem decodeLoopRuns {inLen at' : Int} (low : -2 ^ 31 ≤ inLen) (room : at' + inLen < 2 ^ 31) (negative : inLen < 0 → at' + inLen < 0)
    (text : List BYTE) (state : List BYTE × List BYTE) : decodeLoop sign text inLen at' state =
      (charsRead inLen (alphabetPrefix text).length).bind (fun m =>
        ((alphabetPrefix text).take m).foldlM (feed 4 (fun group => some (decodeGroup sign group))) state) := by
  induction text generalizing inLen at' state with
  | nil =>
      rw [alphabetPrefix,List.takeWhile_nil,List.length_nil,charsReadNone low,decodeLoop]
      split_ifs <;> rfl
  | cons c rest ih =>
      rw [decodeLoop]
      by_cases inside : c ∈ base64Chars
      · have longer : alphabetPrefix (c :: rest) = c :: alphabetPrefix rest := by simp [alphabetPrefix,inside]
        obtain ⟨next,fed⟩ : ∃ next, feed 4 (fun group => some (decodeGroup sign group)) state c = some next :=
          feedSome (fun _ => rfl) state c
        rw [longer,List.length_cons,if_pos ((base64Fold sign c).mpr inside)]
        split_ifs with overflow done last
        · have none : charsRead inLen ((alphabetPrefix rest).length + 1) = none := by
            rw [charsRead,if_neg (by omega),if_neg (by omega)]
          rw [none]
          rfl
        · have none : charsRead inLen ((alphabetPrefix rest).length + 1) = some 0 := by
            rw [charsRead,if_pos (by omega),done]
            rfl
          rw [none]
          rfl
        · omega
        · rw [charsReadMore done (by omega),fed,Option.bind_eq_bind,Option.bind_some,ih (by omega) (by omega) (by omega)]
          cases charsRead (inLen - 1) (alphabetPrefix rest).length with
          | none => rfl
          | some m => simp [fed]
      · have none : alphabetPrefix (c :: rest) = [] := by simp [alphabetPrefix,inside]
        rw [none,List.length_nil,charsReadNone low,if_neg (inside ∘ (base64Fold sign c).mp)]
        split_ifs <;> rfl

theorem base64DecodeReads (text : List BYTE) : base64Decode sign text =
    (charsRead (wrap32 text.length) (alphabetPrefix text).length).map (fun m => decoded sign ((alphabetPrefix text).take m)) := by
  have lasts : ∀ held out : List BYTE, held.length < 4 →
      (fun state => some (decodeLast sign state)) (held,out) = some (out ++ decodedRest sign held) := by
    intro held out _
    cases held with
    | nil => simp [decodeLast,decodedRest]
    | cons c held => rfl
  have range := wrap32Range text.length
  rw [base64Decode,decodeLoopRuns sign range.1 (by omega) (by omega),Option.bind_eq_bind,Option.bind_assoc]
  cases charsRead (wrap32 text.length) (alphabetPrefix text).length with
  | none => rfl
  | some m => exact feedRuns (by decide) (fun _ _ => rfl) lasts ((alphabetPrefix text).take m) []

end RoundTrip

def DecodesPrefix (sign : CharSign) (text : List BYTE) : Prop :=
  ∃ bytes, base64Decode sign text = some bytes ∧ base64Decode sign (alphabetPrefix text) = some bytes

/- A text of n characters, k of them before the first one that is not in the alphabet: the int
that counts it lets the loop read as many whole bytes as it reads from the k alone. -/
def PrefixFits (n k : Nat) : Prop :=
  0 ≤ wrap32 k ∧ if 0 ≤ wrap32 n then 3 * min k (wrap32 n).toNat / 4 = 3 * min k (wrap32 k).toNat / 4 else (k : Int) < wrap32 n + 2 ^ 31

def TextReturns (sign : CharSign) (text : List BYTE) : Prop :=
  ∃ bytes, base64Decode sign text = some bytes ∧ base64Encode sign bytes bytes.length = some text

section Prefixes
variable (sign : CharSign)

theorem prefixOfPrefix (text : List BYTE) : alphabetPrefix (alphabetPrefix text) = alphabetPrefix text :=
  List.takeWhile_idem

theorem decodedPart {chars : List BYTE} {i j : Nat} (inside : i ≤ chars.length) (inside' : j ≤ chars.length) :
    decoded sign (chars.take i) = decoded sign (chars.take j) ↔ 3 * i / 4 = 3 * j / 4 := by
  wlog less : i ≤ j generalizing i j
  · rw [eq_comm,this inside' inside (by omega),eq_comm]
  constructor
  · intro same
    have lengths := congrArg List.length same
    rwa [decodedLength,decodedLength,List.length_take_of_le inside,List.length_take_of_le inside'] at lengths
  · intro same
    rcases less.eq_or_lt with equal | fewer
    · rw [equal]
    · -- only a single character behind whole groups adds nothing
      have one : j = i + 1 := by omega
      subst one
      have whole : i % 4 = 0 := by
        rcases (show i % 4 = 0 ∨ i % 4 = 1 ∨ i % 4 = 2 ∨ i % 4 = 3 by omega) with rest | rest | rest | rest <;> omega
      rw [List.take_add_one,List.getElem?_eq_getElem (by omega)]
      exact (groupedDropRest (by decide) (by rw [List.length_take_of_le (by omega)]; exact whole) (by simp) (by simp [decodedRest])).symm

theorem decodesPrefixIff (text : List BYTE) : DecodesPrefix sign text ↔ PrefixFits text.length (alphabetPrefix text).length := by
  have again := base64DecodeReads sign (alphabetPrefix text)
  rw [prefixOfPrefix] at again
  rw [DecodesPrefix,base64DecodeReads,again]
  generalize alphabetPrefix text = chars at *
  have countRange := wrap32Range text.length
  have exact' : (chars.length : Int) < 2 ^ 31 → wrap32 chars.length = chars.length := wrap32Exact (by omega)
  by_cases whole : 0 ≤ wrap32 chars.length
  · have all : charsRead (wrap32 chars.length) chars.length = some (min chars.length (wrap32 chars.length).toNat) := if_pos whole
    rw [PrefixFits,and_iff_right whole,all,Option.map_some]
    split
    · rename_i counted
      rw [charsRead,if_pos counted,Option.map_some,← decodedPart sign (Nat.min_le_left _ _) (Nat.min_le_left _ _)]
      simpa using eq_comm
    · rename_i negative
      rw [charsRead,if_neg negative]
      split
      · rename_i room
        rw [exact' (by omega),Int.toNat_natCast,Nat.min_self]
        simpa using room
      · rename_i overflows
        exact iff_of_false (by simp) overflows
  · have none : charsRead (wrap32 chars.length) chars.length = none := by
      rw [charsRead,if_neg whole,if_neg (fun _ => whole (by omega))]
    rw [none]
    exact iff_of_false (by simp) (fun fits => whole fits.1)

theorem paddedPrefix {chars : List BYTE} (inside : ∀ c ∈ chars, c ∈ base64Chars) (pads : Nat) :
    alphabetPrefix (chars ++ List.replicate pads (charCode '=')) = chars := by
  have sign : charCode '=' ∉ base64Chars := by decide
  rw [alphabetPrefix,List.takeWhile_append_of_pos (by simpa using inside),List.takeWhile_replicate,if_neg (by simpa using sign),
    List.append_nil]

theorem paddingReplicates (rest : Nat) : padding rest = List.replicate (if rest = 0 then 0 else 3 - rest) (charCode '=') := by
  unfold padding
  split <;> rfl

theorem encodingLength (buf : List BYTE) : (encoded sign buf ++ padding (buf.length % 3)).length = 4 * ((buf.length + 2) / 3) := by
  rw [List.length_append,encodedLength,paddingReplicates,List.length_replicate]
  split <;> omega

theorem decodeEncoding (buf : List BYTE) : base64Decode sign (encoded sign buf ++ padding (buf.length % 3)) =
    (charsRead (wrap32 (4 * ((buf.length + 2) / 3) : Nat)) (encoded sign buf).length).map (fun m =>
      decoded sign ((encoded sign buf).take m)) := by
  rw [base64DecodeReads,encodingLength,paddingReplicates,paddedPrefix (encodedAlphabet sign buf)]

theorem decodeShort {buf : List BYTE} (short : 4 * ((buf.length + 2) / 3) < 2 ^ 31) :
    base64Decode sign (encoded sign buf ++ padding (buf.length % 3)) = some buf := by
  have fewer : (encoded sign buf).length ≤ 4 * ((buf.length + 2) / 3) := by
    rw [← encodingLength sign buf,List.length_append]
    omega
  rw [decodeEncoding,wrap32Exact (by omega) (by omega),charsRead,if_pos (by omega),Int.toNat_natCast,Nat.min_eq_left fewer,
    Option.map_some,List.take_length,decodedEncoded]

theorem textReturnsIff {buf : List BYTE} (small : buf.length < 2 ^ 32) :
    TextReturns sign (encoded sign buf ++ padding (buf.length % 3)) ↔ 4 * ((buf.length + 2) / 3) < 2 ^ 31 := by
  constructor
  · rintro ⟨bytes,decoding,encoding⟩
    by_contra long
    have lengths := congrArg List.length (Option.some.inj ((base64EncodeRuns sign bytes).symm.trans encoding))
    rw [encodingLength,encodingLength] at lengths
    have chars := encodedLength sign buf
    rw [decodeEncoding,wrap32Above (by omega) (by omega),Option.map_eq_some_iff] at decoding
    obtain ⟨m,read,rfl⟩ := decoding
    rw [decodedLength,List.length_take] at lengths
    unfold charsRead at read
    split_ifs at read chars <;> cases read <;> omega
  · intro short
    exact ⟨buf,decodeShort sign short,base64EncodeRuns sign buf⟩

end Prefixes

theorem base64Iff (sign : CharSign) {buf : List BYTE} (small : buf.length < 2 ^ 32) (text : List BYTE) :
    (∃ encoding, base64Encode sign buf buf.length = some encoding ∧
      (encoding.length < 2 ^ 31 → base64Decode sign encoding = some buf) ∧ TextReturns sign encoding ∧ DecodesPrefix sign text) ↔
    4 * ((buf.length + 2) / 3) < 2 ^ 31 ∧ PrefixFits text.length (alphabetPrefix text).length := by
  rw [← decodesPrefixIff sign,← textReturnsIff sign small]
  constructor
  · rintro ⟨encoding,made,-,returns,reads⟩
    cases (base64EncodeRuns sign buf).symm.trans made
    exact ⟨returns,reads⟩
  · rintro ⟨returns,reads⟩
    refine ⟨_,base64EncodeRuns sign buf,fun short => ?_,returns,reads⟩
    rw [encodingLength] at short
    exact decodeShort sign short

theorem shortTexts : ∃ encoding, base64Encode .signed [charCode 'M',charCode 'a'] 2 = some encoding ∧
    (encoding.length < 2 ^ 31 → base64Decode .signed encoding = some [charCode 'M',charCode 'a']) ∧ TextReturns .signed encoding ∧
    DecodesPrefix .signed [charCode 'T',charCode 'W',charCode ' '] :=
  (base64Iff .signed (by decide) _).mpr ⟨by decide,by unfold PrefixFits; decide +kernel⟩

/- The length 2^32 is 0 in an int, so the four characters before the padding are not read. -/
theorem lengthWraps : ¬∀ (sign : CharSign) (buf : List BYTE) (text : List BYTE), buf.length < 2 ^ 32 →
    ∃ encoding, base64Encode sign buf buf.length = some encoding ∧
      (encoding.length < 2 ^ 31 → base64Decode sign encoding = some buf) ∧ TextReturns sign encoding ∧ DecodesPrefix sign text := by
  intro all
  obtain ⟨_,_,_,_,reads⟩ := all .signed [] (List.replicate 4 (charCode 'A') ++ List.replicate (2 ^ 32 - 4) (charCode '=')) (by decide)
  have letters : ∀ c ∈ List.replicate 4 (charCode 'A'), c ∈ base64Chars := by decide
  rw [decodesPrefixIff,paddedPrefix letters,List.length_append,List.length_replicate,List.length_replicate] at reads
  have bytes := reads.2
  have zero : wrap32 ((4 + (2 ^ 32 - 4) : Nat) : Int) = 0 := by decide
  rw [zero] at bytes
  contradiction

end NimbleNet.Base64
