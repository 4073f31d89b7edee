import Mathlib

/-! A text with quoted literals, read from left to right: a literal ends at the first
quote that is not doubled. The rest of the text is kept character by character. No
table is mentioned here. -/
namespace NimbleNet.SqlLiterals

inductive Token (α : Type) where
  | plain (c : α)
  | literal (value : List α)
  deriving DecidableEq, Repr

variable {α : Type} [DecidableEq α] (quote : α)

/- Inside a literal its value so far is given; an open literal at the end is an error. -/
def scan : Option (List α) → List α → Option (List (Token α))
  | none,[] => some []
  | none,c :: rest => if c = quote then scan (some []) rest else (scan none rest).map (.plain c :: ·)
  | some _,[] => none
  | some value,[c] => if c = quote then some [.literal value] else none
  | some value,c :: d :: rest =>
      if c = quote then
        if d = quote then scan (some (value ++ [quote])) rest else (scan none (d :: rest)).map (.literal value :: ·)
      else scan (some (value ++ [c])) (d :: rest)

def weight : Token α → Nat
  | .plain _ => 1
  | .literal value => value.length + value.count quote + 2

def weights (tokens : List (Token α)) : Nat := (tokens.map (weight quote)).sum

@[simp] theorem weightsNil : weights quote ([] : List (Token α)) = 0 := rfl
@[simp] theorem weightsCons (t : Token α) (rest : List (Token α)) :
    weights quote (t :: rest) = weight quote t + weights quote rest := by simp [weights]
@[simp] theorem weightsAppend (left right : List (Token α)) :
    weights quote (left ++ right) = weights quote left + weights quote right := by simp [weights]
@[simp] theorem weightsPlain (text : List α) : weights quote (text.map Token.plain) = text.length := by
  induction text with
  | nil => rfl
  | cons c rest ih =>
      simp only [List.map_cons,weightsCons,ih,weight,List.length_cons]
      omega

variable {quote}

def opened (quote : α) : Option (List α) → Nat
  | none => 0
  | some value => value.length + value.count quote + 1

theorem scanWeights (value : Option (List α)) (text : List α) (tokens : List (Token α)) :
    scan quote value text = some tokens → weights quote tokens = text.length + opened quote value := by
  fun_induction scan quote value text generalizing tokens with
  | case1 =>
      intro read
      cases read
      rfl
  | case2 rest ih =>
      intro read
      have := ih tokens read
      simp only [opened,List.length_nil,List.count_nil,List.length_cons] at this ⊢
      omega
  | case3 c rest other ih =>
      intro read
      obtain ⟨tokens',read',rfl⟩ := Option.map_eq_some_iff.mp read
      have := ih tokens' read'
      simp only [opened,weightsCons,weight,List.length_cons] at this ⊢
      omega
  | case4 =>
      intro read
      cases read
  | case5 value =>
      intro read
      cases read
      simp [weight,opened]
      omega
  | case6 =>
      intro read
      cases read
  | case7 value rest ih =>
      intro read
      have := ih tokens read
      simp only [opened,List.length_append,List.length_nil,List.count_append,List.count_singleton_self,
        List.length_cons] at this ⊢
      omega
  | case8 value d rest other ih =>
      intro read
      obtain ⟨tokens',read',rfl⟩ := Option.map_eq_some_iff.mp read
      have := ih tokens' read'
      simp only [opened,weightsCons,weight,List.length_cons] at this ⊢
      omega
  | case9 value c d rest other ih =>
      intro read
      have := ih tokens read
      simp only [opened,List.length_append,List.length_nil,List.count_append,List.count_cons_of_ne other,
        List.count_nil,List.length_cons] at this ⊢
      omega

theorem scanPlainFree (value : Option (List α)) (text : List α) (tokens : List (Token α)) :
    scan quote value text = some tokens → Token.plain quote ∉ tokens := by
  fun_induction scan quote value text generalizing tokens with
  | case1 =>
      intro read
      cases read
      exact List.not_mem_nil
  | case2 rest ih => exact ih tokens
  | case3 c rest other ih =>
      intro read
      obtain ⟨tokens',read',rfl⟩ := Option.map_eq_some_iff.mp read
      simpa [Ne.symm other] using ih tokens' read'
  | case4 =>
      intro read
      cases read
  | case5 value =>
      intro read
      cases read
      simp
  | case6 =>
      intro read
      cases read
  | case7 value rest ih => exact ih tokens
  | case8 value d rest other ih =>
      intro read
      obtain ⟨tokens',read',rfl⟩ := Option.map_eq_some_iff.mp read
      simpa using ih tokens' read'
  | case9 value c d rest other ih => exact ih tokens

theorem scanPlain {text : List α} (free : quote ∉ text) (rest : List α) :
    scan quote none (text ++ rest) = (scan quote none rest).map (text.map Token.plain ++ ·) := by
  induction text with
  | nil => simp
  | cons c more ih =>
      have ⟨here,later⟩ := not_or.mp (mt List.mem_cons.mpr free)
      simp only [List.cons_append,scan,if_neg (Ne.symm here),ih later,Option.map_map,List.map_cons]
      rfl

theorem scanInside {text : List α} (free : quote ∉ text) (value : List α) {c : α} (other : c ≠ quote) (rest : List α) :
    scan quote (some value) (text ++ quote :: c :: rest) =
      (scan quote none (c :: rest)).map (.literal (value ++ text) :: ·) := by
  induction text generalizing value with
  | nil => simp [scan,other]
  | cons d more ih =>
      have ⟨here,later⟩ := not_or.mp (mt List.mem_cons.mpr free)
      have next := ih later (value ++ [d])
      rw [List.append_assoc,List.singleton_append] at next
      rw [← next]
      cases more with
      | nil => simp [scan,Ne.symm here]
      | cons e more => simp [scan,Ne.symm here]

theorem scanLiteral {text : List α} (free : quote ∉ text) {c : α} (other : c ≠ quote) (rest : List α) :
    scan quote none (quote :: (text ++ quote :: c :: rest)) =
      (scan quote none (c :: rest)).map (.literal text :: ·) := by
  rw [scan,if_pos rfl,scanInside free [] other rest,List.nil_append]

end NimbleNet.SqlLiterals
