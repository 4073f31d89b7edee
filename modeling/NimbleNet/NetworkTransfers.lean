import NimbleNet.BlockContents
import NimbleNet.ResourceManager
import NimbleNet.StepRuns

/-! The answers of the server in memory: the client puts one together while curl delivers it, and
NetworkResponse takes it over and frees it. What curl does is an argument. malloc and realloc are
taken to succeed; the client exits if they do not. -/
namespace NimbleNet.NetworkTransfers
open BlockContents HeapBlocks MachineNumbers StepRuns

structure CNetworkResponse where
  statusCode : Int
  headers : Option Nat
  body : Option Nat
  bodyLength : Int

structure Stringy where
  ptr : Nat
  len : Nat

structure Arrival where
  data : Bytes
  stays : Bool
  unset : UInt8

/- A request as curl makes it. `headers`: how many were appended to the list, each a block.
`performed`, `informed`: CURLE_OK of the transfer and of its status code. -/
structure Transfer where
  headers : Nat
  arrivals : List Arrival
  performed : Bool
  informed : Bool
  httpCode : Int
  unset : UInt8

namespace Transfer

def arrives (t : Transfer) : Bool := t.performed && t.informed

def text (t : Transfer) : Bytes := t.arrivals.flatMap Arrival.data

def answer (t : Transfer) : NetworkResponse := if t.arrives then ⟨t.httpCode,t.text⟩ else ⟨900,[]⟩

end Transfer

section Requests
variable (a : Allocator)

def initString (m : Memory UInt8) : Stringy × Memory UInt8 :=
  let (ptr,m) := m.malloc a [0]
  (⟨ptr,0⟩,m)

def writefunc (s : Stringy × Memory UInt8) (w : Arrival) : Option (Stringy × Memory UInt8) := do
  let newLen := s.1.len + w.data.length
  let (ptr,m) ← s.2.realloc a w.stays w.unset s.1.ptr (newLen + 1)
  let m ← m.write ptr s.1.len w.data
  let m ← m.write ptr newLen [0]
  some (⟨ptr,newLen⟩,m)

def appendHeaders : Nat → Memory UInt8 → Memory UInt8
  | 0,m => m
  | count + 1,m => appendHeaders count (m.malloc a []).2

def sendRequest (t : Transfer) (m : Memory UInt8) : Option (CNetworkResponse × Memory UInt8) := do
  let (curl,m) := (appendHeaders a t.headers m).malloc a []
  let (s,m) ← t.arrivals.foldlM (writefunc a) (initString a m)
  if t.performed && t.informed then
    let (headers,m) := m.malloc a (List.replicate 10 t.unset)
    let m ← m.free (some curl)
    some (⟨t.httpCode,some headers,some s.ptr,wrap32 s.len⟩,m)
  else some (⟨900,none,none,0⟩,m)

def networkResponse (c : CNetworkResponse) (m : Memory UInt8) : CNetworkResponse × Memory UInt8 :=
  match c.body with
  | some _ => (c,m)
  | none =>
      let (body,m) := m.malloc a [0]
      let (headers,m) := m.malloc a [0]
      ({c with headers := some headers, body := some body},m)

def request (t : Transfer) (m : Memory UInt8) : Option (CNetworkResponse × Memory UInt8) := do
  let (c,m) ← sendRequest a t m
  some (networkResponse a c m)

end Requests

namespace CNetworkResponse

def destroy (r : CNetworkResponse) (m : Memory UInt8) : Option (Memory UInt8) := do
  let m ← m.free r.headers
  m.free r.body

def blocks (r : CNetworkResponse) : List Nat := r.headers.toList ++ r.body.toList

/- `string(r.body, r.bodyLength)`: a negative length throws, and behind the block it is undefined. -/
def read (r : CNetworkResponse) (m : Memory UInt8) : Option Bytes := do
  let body ← r.body
  if 0 ≤ r.bodyLength ∧ r.bodyLength ≤ (m.contents body).length then some ((m.contents body).take r.bodyLength.toNat)
  else none

def seen (r : CNetworkResponse) (m : Memory UInt8) : Option NetworkResponse := (r.read m).map (⟨r.statusCode,·⟩)

end CNetworkResponse

structure Client where
  memory : Memory UInt8
  responses : List (Transfer × CNetworkResponse)

inductive Action where
  | request (t : Transfer)
  | release (position : Nat)

namespace Client

def start (h : Heap) : Client := ⟨⟨h,fun _ => []⟩,[]⟩

def blocks (s : Client) : List Nat := s.responses.flatMap (fun entry => entry.2.blocks)

end Client

def step (a : Allocator) (s : Client) : Action → Option Client
  | .request t => do
      let (r,m) ← request a t s.memory
      some ⟨m,s.responses ++ [(t,r)]⟩
  | .release position => do
      let entry ← s.responses[position]?
      let m ← entry.2.destroy s.memory
      some ⟨m,s.responses.eraseIdx position⟩

structure Answers (m : Memory UInt8) (t : Transfer) (r : CNetworkResponse) : Prop where
  status : r.statusCode = t.answer.statusCode
  body : r.body.map m.contents = some (t.answer.body ++ [0])
  length : r.bodyLength = wrap32 t.answer.body.length

def Inside (s : Client) : Action → Prop
  | .request _ => True
  | .release position => position < s.responses.length

def Action.keepsMemory : Action → Bool
  | .request t => t.headers == 0 && t.arrives
  | .release _ => true

instance (s : Client) : (act : Action) → Decidable (Inside s act)
  | .request _ => isTrue trivial
  | .release position => inferInstanceAs (Decidable (position < s.responses.length))

section Filling
variable {a : Allocator} {m : Memory UInt8} {blocks : List Nat} {text : Bytes} {s : Stringy × Memory UInt8}

structure Filled (m : Memory UInt8) (blocks : List Nat) (text : Bytes) (s : Stringy × Memory UInt8) : Prop where
  held : Holds s.2.heap (s.1.ptr :: blocks)
  content : s.2.contents s.1.ptr = text ++ [0]
  length : s.1.len = text.length
  keeps : Memory.Keeps blocks m s.2

theorem initFilled (a : Allocator) (held : Holds m.heap blocks) : Filled m blocks [] (initString a m) := by
  obtain ⟨grown,content,kept⟩ := Memory.mallocKeeps a [0] held
  exact ⟨grown,content,rfl,kept⟩

theorem writeFills (filled : Filled m blocks text s) (w : Arrival) :
    ∃ next, writefunc a s w = some next ∧ Filled m blocks (text ++ w.data) next := by
  obtain ⟨held,content,length,kept⟩ := filled
  obtain ⟨ptr,grown,moved,held',content',kept'⟩ :=
    Memory.reallocKeeps a w.stays w.unset (s.1.len + w.data.length + 1) held
  rw [content] at content'
  have size : (grown.contents ptr).length = text.length + w.data.length + 1 := by
    rw [content',length]
    simp [Memory.resized]
    omega
  obtain ⟨copied,written,held'',content'',kept''⟩ := Memory.writeKeeps s.1.len w.data held' (by omega)
  have size' : (copied.contents ptr).length = text.length + w.data.length + 1 := by
    rw [content'']
    simp only [Memory.overwritten,size,length,List.length_append,List.length_take,List.length_drop]
    omega
  obtain ⟨last,ended,heldLast,contentLast,keptLast⟩ :=
    Memory.writeKeeps (s.1.len + w.data.length) [0] held'' (by simp; omega)
  refine ⟨(⟨ptr,s.1.len + w.data.length⟩,last),by simp [writefunc,moved,written,ended],heldLast,?_,
    by simp [length],?_⟩
  · simp only [contentLast,content'',content',length]
    exact Memory.grownContent text w.data 0 0 w.unset
  · exact Memory.keepsTrans (Memory.keepsTrans (Memory.keepsTrans kept kept') kept'') keptLast

theorem arrivalsFill (filled : Filled m blocks text s) (arrivals : List Arrival) :
    ∃ next, arrivals.foldlM (writefunc a) s = some next ∧
      Filled m blocks (text ++ arrivals.flatMap Arrival.data) next := by
  induction arrivals generalizing text s with
  | nil => exact ⟨s,rfl,by simpa using filled⟩
  | cons w rest ih =>
      obtain ⟨middle,written,filled'⟩ := writeFills (a := a) filled w
      obtain ⟨next,later,filled''⟩ := ih filled'
      refine ⟨next,by rw [List.foldlM_cons,written]; exact later,?_⟩
      rwa [List.append_assoc] at filled''

theorem headersKeep (a : Allocator) (count : Nat) (held : Holds m.heap blocks) : ∃ headers : List Nat,
    headers.length = count ∧ Holds (appendHeaders a count m).heap (headers ++ blocks) ∧
      Memory.Keeps blocks m (appendHeaders a count m) := by
  induction count generalizing m blocks with
  | zero => exact ⟨[],rfl,held,fun _ _ => rfl⟩
  | succ count ih =>
      obtain ⟨grown,-,kept⟩ := Memory.mallocKeeps a [] held
      obtain ⟨headers,length,held',kept'⟩ := ih grown
      refine ⟨headers ++ [(m.malloc a []).1],by simp [length],?_,?_⟩
      · rw [List.append_assoc]
        exact held'
      · exact Memory.keepsTrans kept (Memory.keepsSubset kept' (List.subset_cons_self _ _))

theorem requestAnswers (a : Allocator) (t : Transfer) (held : Holds m.heap blocks) : ∃ r next lost,
    request a t m = some (r,next) ∧ Holds next.heap (r.blocks ++ (lost ++ blocks)) ∧
      (lost = [] ↔ (Action.request t).keepsMemory = true) ∧ Answers next t r ∧ Memory.Keeps blocks m next := by
  obtain ⟨headers,count,heldHeaders,keptHeaders⟩ := headersKeep a t.headers held
  obtain ⟨heldCurl,-,keptCurl⟩ := Memory.mallocKeeps a [] heldHeaders
  obtain ⟨⟨curl,opened⟩,initialised⟩ : ∃ r, (appendHeaders a t.headers m).malloc a [] = r := ⟨_,rfl⟩
  rw [initialised] at heldCurl keptCurl
  obtain ⟨⟨s,m'⟩,ran,filled⟩ := arrivalsFill (a := a) (initFilled a heldCurl) t.arrivals
  rw [List.nil_append] at filled
  have before : Memory.Keeps blocks m m' := by
    have kept := Memory.keepsTrans (Memory.keepsSubset keptCurl (List.subset_append_right headers blocks))
      (Memory.keepsSubset filled.keeps (List.subset_cons_of_subset curl (List.subset_append_right headers blocks)))
    exact Memory.keepsTrans keptHeaders kept
  cases arrives : t.arrives with
  | true =>
      obtain ⟨grown,-,kept⟩ := Memory.mallocKeeps a (List.replicate 10 t.unset) filled.held
      obtain ⟨⟨header,full⟩,allocated⟩ : ∃ r, m'.malloc a (List.replicate 10 t.unset) = r := ⟨_,rfl⟩
      simp only [allocated] at grown kept
      have taken : Holds full.heap (curl :: header :: s.ptr :: (headers ++ blocks)) :=
        holdsPerm grown (List.perm_iff_count.mpr (fun x => by simp only [List.count_cons]; omega))
      obtain ⟨next,freed,held',same⟩ := Memory.freeKeeps (p := some curl) taken
      refine ⟨⟨t.httpCode,some header,some s.ptr,wrap32 s.len⟩,next,headers,?_,held',?_,⟨?_,?_,?_⟩,?_⟩
      · rw [Transfer.arrives] at arrives
        simp only [request,sendRequest,initialised,bind,ran,Option.bind_some,arrives,if_true,allocated,freed]
        rfl
      · simp [Action.keepsMemory,arrives,← count]
      · simp [Transfer.answer,arrives]
      · have content : m'.contents s.ptr = t.text ++ [0] := filled.content
        simp [Transfer.answer,arrives,same,kept s.ptr List.mem_cons_self,content]
      · have length : s.len = t.text.length := filled.length
        simp [Transfer.answer,arrives,length]
      · refine Memory.keepsTrans before (fun p member => ?_)
        rw [same]
        exact kept p (List.mem_cons_of_mem _ (List.mem_cons_of_mem _ (List.mem_append_right _ member)))
  | false =>
      obtain ⟨heldBody,body,keptBody⟩ := Memory.mallocKeeps a [(0 : UInt8)] filled.held
      obtain ⟨⟨p,half⟩,first⟩ : ∃ r, m'.malloc a [(0 : UInt8)] = r := ⟨_,rfl⟩
      simp only [first] at heldBody body keptBody
      obtain ⟨heldAll,-,keptAll⟩ := Memory.mallocKeeps a [(0 : UInt8)] heldBody
      obtain ⟨⟨q,next⟩,second⟩ : ∃ r, half.malloc a [(0 : UInt8)] = r := ⟨_,rfl⟩
      simp only [second] at heldAll keptAll
      refine ⟨⟨900,some q,some p,0⟩,next,s.ptr :: curl :: headers,?_,heldAll,?_,⟨?_,?_,?_⟩,?_⟩
      · rw [Transfer.arrives] at arrives
        simp only [request,sendRequest,initialised,bind,ran,Option.bind_some,arrives,Bool.false_eq_true,if_false,
          networkResponse,first,second]
      · simp [Action.keepsMemory,arrives]
      · simp [Transfer.answer,arrives]
      · simp [Transfer.answer,arrives,keptAll p List.mem_cons_self,body]
      · simp [Transfer.answer,arrives,wrap32]
      · refine Memory.keepsTrans before (Memory.keepsTrans (Memory.keepsSubset keptBody ?_) (Memory.keepsSubset keptAll ?_))
        · intro p member
          simp [member]
        · intro p member
          simp [member]

end Filling

section Steps
variable {a : Allocator} {rest : List Nat} {s next : Client}

theorem answersKept {m next : Memory UInt8} {t : Transfer} {r : CNetworkResponse} (h : Answers m t r)
    (kept : Memory.Keeps r.blocks m next) : Answers next t r := by
  refine ⟨h.status,?_,h.length⟩
  rw [← h.body]
  refine Option.map_congr (fun p member => kept p ?_)
  simp [CNetworkResponse.blocks,Option.mem_def.mp member]

def Client.Answered (s : Client) : Prop := ∀ entry ∈ s.responses, Answers s.memory entry.1 entry.2

theorem entryBlocks {entry : Transfer × CNetworkResponse} (member : entry ∈ s.responses) : entry.2.blocks ⊆ s.blocks :=
  fun _ inside => List.mem_flatMap.mpr ⟨entry,member,inside⟩

theorem releasedTaken {position : Nat} {entry : Transfer × CNetworkResponse} (given : s.responses[position]? = some entry) :
    s.blocks.Perm (entry.2.blocks ++ (s.responses.eraseIdx position).flatMap (fun entry => entry.2.blocks)) := by
  obtain ⟨inside,rfl⟩ := List.getElem?_eq_some_iff.mp given
  have taken := (List.getElem_cons_eraseIdx_perm inside).flatMap_right (fun entry => entry.2.blocks)
  rw [List.flatMap_cons] at taken
  exact taken.symm

theorem destroyKeeps {m : Memory UInt8} {r : CNetworkResponse} (held : Holds m.heap (r.blocks ++ rest)) :
    ∃ next, r.destroy m = some next ∧ Holds next.heap rest ∧ next.contents = m.contents := by
  rw [CNetworkResponse.blocks,List.append_assoc] at held
  obtain ⟨middle,freed,held',same⟩ := Memory.freeKeeps held
  obtain ⟨next,freed',held'',same'⟩ := Memory.freeKeeps held'
  exact ⟨next,by simp [CNetworkResponse.destroy,freed,freed'],held'',same'.trans same⟩

theorem stepEnds (held : Holds s.memory.heap (s.blocks ++ rest)) (answered : s.Answered) {act : Action}
    (inside : Inside s act) :
    ∃ next lost, step a s act = some next ∧ Holds next.memory.heap (next.blocks ++ (lost ++ rest)) ∧
      (lost = [] ↔ act.keepsMemory = true) ∧ next.Answered := by
  cases act with
  | request t =>
      obtain ⟨r,m,lost,made,held',exact,answers,kept⟩ := requestAnswers a t held
      refine ⟨⟨m,s.responses ++ [(t,r)]⟩,lost,by simp [step,made],?_,exact,?_⟩
      · refine holdsPerm held' (List.perm_iff_count.mpr (fun x => ?_))
        simp only [Client.blocks,List.flatMap_append,List.flatMap_cons,List.flatMap_nil,List.count_append,List.append_nil]
        omega
      · intro entry member
        rcases List.mem_append.mp member with old | new
        · refine answersKept (answered entry old) (Memory.keepsSubset kept ?_)
          exact List.Subset.trans (entryBlocks old) (List.subset_append_left _ _)
        · obtain rfl := List.mem_singleton.mp new
          exact answers
  | release position =>
      obtain ⟨entry,given⟩ : ∃ entry, s.responses[position]? = some entry := ⟨_,List.getElem?_eq_getElem inside⟩
      have taken := holdsPerm held (List.Perm.append_right rest (releasedTaken given))
      rw [List.append_assoc] at taken
      obtain ⟨m,freed,held',same⟩ := destroyKeeps taken
      refine ⟨⟨m,s.responses.eraseIdx position⟩,[],by simp [step,given,freed],held',by simp [Action.keepsMemory],?_⟩
      intro other member
      exact answersKept (answered other (List.mem_of_mem_eraseIdx member)) (fun p _ => congrFun same p)

structure Accounted (base : List Nat) (s : Client) : Prop where
  held : ∃ lost, Holds s.memory.heap (s.blocks ++ (lost ++ base))
  answered : s.Answered

theorem takenInside {act : Action} (taken : step a s act = some next) : Inside s act := by
  cases act with
  | request t => trivial
  | release position =>
      simp only [step,bind,Option.bind_eq_some_iff] at taken
      obtain ⟨entry,given,-⟩ := taken
      exact (List.getElem?_eq_some_iff.mp given).1

theorem stepAccounted {base : List Nat} (s : Client) (act : Action) (inv : Accounted base s) (inside : Inside s act) :
    ∃ next, step a s act = some next ∧ Accounted base next := by
  obtain ⟨⟨lost,held⟩,answered⟩ := inv
  obtain ⟨next,more,taken,held',-,answered'⟩ := stepEnds held answered inside
  exact ⟨next,taken,⟨more ++ lost,by rwa [List.append_assoc]⟩,answered'⟩

theorem startAccounted (h : Heap) : Accounted h.live (.start h) :=
  ⟨⟨[],List.Perm.refl _⟩,fun _ member => by cases member⟩

end Steps

section Results
variable {a : Allocator} {h : Heap} {actions : List Action} {final : Client}

theorem runAccounted (ok : run (step a) (.start h) actions = some final) : Accounted h.live final := by
  refine runInvariant _ (fun s act next inv taken => ?_) (startAccounted h) ok
  obtain ⟨next',taken',inv'⟩ := stepAccounted s act inv (takenInside taken)
  cases taken.symm.trans taken'
  exact inv'

theorem seenIff {m : Memory UInt8} {t : Transfer} {r : CNetworkResponse} (answers : Answers m t r) :
    r.seen m = some t.answer ↔ t.answer.body.length < 2 ^ 31 := by
  obtain ⟨body,there,content⟩ := Option.map_eq_some_iff.mp answers.body
  have size : (m.contents body).length = t.answer.body.length + 1 := by
    rw [content,List.length_append,List.length_singleton]
  simp only [CNetworkResponse.seen,CNetworkResponse.read,there,bind,Option.bind_some]
  constructor
  · intro same
    split at same
    · have lengths := congrArg (fun answer => answer.body.length) (Option.some.inj same)
      simp only [List.length_take,size,answers.length] at lengths
      have high := (wrap32Range t.answer.body.length).2
      generalize wrap32 t.answer.body.length = n at lengths high
      omega
    · contradiction
  · intro short
    have length : r.bodyLength = t.answer.body.length := answers.length.trans (wrap32Exact (by omega) (by omega))
    have fits : 0 ≤ r.bodyLength ∧ r.bodyLength ≤ (m.contents body).length := by omega
    rw [if_pos fits,content,length,Int.toNat_natCast,List.take_left,Option.map_some,answers.status]

/- However the answers arrive and in whatever order they are released: a caller that reads one
sees what the server answered, exactly if its length fits an int. -/
theorem wholeIff (ok : run (step a) (.start h) actions = some final) {entry : Transfer × CNetworkResponse}
    (member : entry ∈ final.responses) : (entry.2.blocks ⊆ final.memory.heap.live) ∧
      (entry.2.seen final.memory = some entry.1.answer ↔ entry.1.answer.body.length < 2 ^ 31) := by
  obtain ⟨⟨lost,held⟩,answered⟩ := runAccounted ok
  refine ⟨fun p inside => held.mem_iff.mpr ?_,seenIff (answered entry member)⟩
  exact List.mem_append_left _ (entryBlocks member inside)

theorem requestsReturn (a : Allocator) (h : Heap) (inside : Guarded (step a) Inside (.start h) actions) :
    ∃ final, run (step a) (.start h) actions = some final := by
  obtain ⟨final,ok,-⟩ := guardedReturns (fun s act inv => stepAccounted s act inv) (startAccounted h) inside
  exact ⟨final,ok⟩

theorem nothingLostIff (ok : run (step a) (.start h) actions = some final) :
    final.memory.heap.live.Perm (final.blocks ++ h.live) ↔
      Guarded (step a) (fun _ act => act.keepsMemory = true) (.start h) actions := by
  have exact (s : Client) (act : Action) (next : Client) (inv : Accounted h.live s) (taken : step a s act = some next) :
      Accounted h.live next ∧ (Holds next.memory.heap (next.blocks ++ h.live) ↔
        Holds s.memory.heap (s.blocks ++ h.live) ∧ act.keepsMemory = true) := by
    obtain ⟨⟨lost,held⟩,answered⟩ := inv
    obtain ⟨next',more,taken',held',kept,answered'⟩ := stepEnds held answered (takenInside taken)
    cases taken.symm.trans taken'
    rw [← List.append_assoc more] at held'
    refine ⟨⟨⟨_,held'⟩,answered'⟩,?_⟩
    rw [holdsExactly held,holdsExactly held',← kept,List.append_eq_nil_iff,and_comm]
  have start : Holds h ((Client.start h).blocks ++ h.live) := List.Perm.refl _
  exact (endIffGuarded exact (startAccounted h) ok).2.trans (and_iff_right start)

end Results

section Download
def pieces : List Arrival := [⟨[112,108],false,0⟩,⟨[97,110],true,0⟩]

def downloads : List Action :=
  [.request ⟨1,pieces,true,true,200,0⟩,.request ⟨0,pieces.take 1,false,true,0,0⟩,.release 1]

def noBlocks : Heap := ⟨[],List.nodup_nil⟩

theorem downloadsReturn : ∃ final, run (step nextAddress) (.start noBlocks) downloads = some final :=
  requestsReturn nextAddress noBlocks (by decide +kernel)

theorem planWhole : ∃ final entry, run (step nextAddress) (.start noBlocks) downloads = some final ∧
    entry ∈ final.responses ∧ entry.2.blocks ⊆ final.memory.heap.live ∧
      (entry.2.seen final.memory = some entry.1.answer ↔ entry.1.answer.body.length < 2 ^ 31) := by
  have runs : (run (step nextAddress) (.start noBlocks) downloads).any (fun s => s.responses.length == 1) = true := by
    decide +kernel
  obtain ⟨final,ran,one⟩ := (Option.any_eq_true _ _).mp runs
  obtain ⟨entry,rest,same⟩ := List.exists_cons_of_length_eq_add_one (beq_iff_eq.mp one)
  have member : entry ∈ final.responses := by
    rw [same]
    exact List.mem_cons_self
  exact ⟨final,entry,ran,member,wholeIff ran member⟩

example : ((run (step nextAddress) (.start noBlocks) downloads).map (fun s =>
    s.responses.map (fun entry => entry.2.read s.memory))) = some [some [112,108,97,110]] := by decide +kernel

theorem headersLost : ∃ final, run (step nextAddress) (.start noBlocks) downloads = some final ∧
    ¬ final.memory.heap.live.Perm (final.blocks ++ []) := by
  have runs : (run (step nextAddress) (.start noBlocks) downloads).isSome = true := by decide +kernel
  obtain ⟨final,ran⟩ := Option.isSome_iff_exists.mp runs
  exact ⟨final,ran,fun same => absurd ((nothingLostIff ran).mp same) (by decide +kernel)⟩

end Download

end NimbleNet.NetworkTransfers
