/-
**Equality of types is decidable.**

Two types are compared layer by layer; the comparison answers `true` exactly on equal types
(`Ty.same_iff`).
-/
import SignatureAlgebra.Ty.Basic

namespace SignatureAlgebra.Ty

mutual
/-- Compares two types. -/
def same : Ty → Ty → Bool
  | ⟨s⟩, ⟨s'⟩ => sameShape s s'
termination_by structural t => t

def sameShape : Shape Ty → Shape Ty → Bool
  | .base word, .base word' => word == word'
  | .placeholder word, .placeholder word' => word == word'
  | .var name, .var name' => name == name'
  | .literal value, .literal value' => value == value'
  | .logic evidence, .logic evidence' => evidence == evidence'
  | .singleton name, .singleton name' => name == name'
  | .applied head name args, .applied head' name' args' =>
    head == head' && name == name' && sameList args args'
  | .compound connective members, .compound connective' members' =>
    connective == connective' && sameList members members'
  | .tuple members, .tuple members' => sameList members members'
  | .record fields, .record fields' => sameFields fields fields'
  | .proc params result, .proc params' result' => sameParams params params' && same result result'
  | _, _ => false
termination_by structural s => s

def sameParams : Params Ty → Params Ty → Bool
  | ⟨required, optional, rest, ⟨keywords⟩, ⟨optionalKeywords⟩, restKeywords⟩, other =>
    sameList required other.required && sameList optional other.optional &&
      sameOption rest other.rest && sameGaps keywords other.keywords.gaps &&
      sameGaps optionalKeywords other.optionalKeywords.gaps &&
      sameOption restKeywords other.restKeywords
termination_by structural p => p

def sameList : List Ty → List Ty → Bool
  | [], [] => true
  | t :: rest, t' :: rest' => same t t' && sameList rest rest'
  | _, _ => false
termination_by structural ts => ts

def sameOption : Option Ty → Option Ty → Bool
  | none, none => true
  | some t, some t' => same t t'
  | _, _ => false
termination_by structural o => o

def sameFields : List (Literal × Ty) → List (Literal × Ty) → Bool
  | [], [] => true
  | (key, t) :: rest, (key', t') :: rest' => key == key' && same t t' && sameFields rest rest'
  | _, _ => false
termination_by structural fs => fs

def sameGaps : List (Nat × Ty) → List (Nat × Ty) → Bool
  | [], [] => true
  | (gap, t) :: rest, (gap', t') :: rest' => gap == gap' && same t t' && sameGaps rest rest'
  | _, _ => false
termination_by structural gs => gs
end

mutual
theorem same_iff : ∀ t t' : Ty, same t t' = true ↔ t = t'
  | ⟨s⟩, ⟨s'⟩ => by simp [same, sameShape_iff s s']
termination_by structural t => t

theorem sameShape_iff : ∀ s s' : Shape Ty, sameShape s s' = true ↔ s = s'
  | .base word, s' => by cases s' <;> simp [sameShape]
  | .placeholder word, s' => by cases s' <;> simp [sameShape]
  | .var name, s' => by cases s' <;> simp [sameShape]
  | .literal value, s' => by cases s' <;> simp [sameShape]
  | .logic evidence, s' => by cases s' <;> simp [sameShape]
  | .singleton name, s' => by cases s' <;> simp [sameShape]
  | .applied head name args, s' => by
    cases s' <;> simp [sameShape, sameList_iff args, and_assoc]
  | .compound connective members, s' => by cases s' <;> simp [sameShape, sameList_iff members]
  | .tuple members, s' => by cases s' <;> simp [sameShape, sameList_iff members]
  | .record fields, s' => by cases s' <;> simp [sameShape, sameFields_iff fields]
  | .proc params result, s' => by
    cases s' <;> simp [sameShape, sameParams_iff params, same_iff result]
termination_by structural s => s

theorem sameParams_iff : ∀ p p' : Params Ty, sameParams p p' = true ↔ p = p'
  | ⟨required, optional, rest, ⟨keywords⟩, ⟨optionalKeywords⟩, restKeywords⟩, other => by
    obtain ⟨required', optional', rest', ⟨keywords'⟩, ⟨optionalKeywords'⟩, restKeywords'⟩ := other
    simp [sameParams, sameList_iff required, sameList_iff optional, sameOption_iff rest,
      sameGaps_iff keywords, sameGaps_iff optionalKeywords, sameOption_iff restKeywords, and_assoc]
termination_by structural p => p

theorem sameList_iff : ∀ ts ts' : List Ty, sameList ts ts' = true ↔ ts = ts'
  | [], ts' => by cases ts' <;> simp [sameList]
  | t :: rest, ts' => by cases ts' <;> simp [sameList, same_iff t, sameList_iff rest]
termination_by structural ts => ts

theorem sameOption_iff : ∀ o o' : Option Ty, sameOption o o' = true ↔ o = o'
  | none, o' => by cases o' <;> simp [sameOption]
  | some t, o' => by cases o' <;> simp [sameOption, same_iff t]
termination_by structural o => o

theorem sameFields_iff : ∀ fs fs' : List (Literal × Ty), sameFields fs fs' = true ↔ fs = fs'
  | [], fs' => by cases fs' <;> simp [sameFields]
  | (key, t) :: rest, fs' => by
    cases fs' <;> simp [sameFields, same_iff t, sameFields_iff rest, Prod.ext_iff]
termination_by structural fs => fs

theorem sameGaps_iff : ∀ gs gs' : List (Nat × Ty), sameGaps gs gs' = true ↔ gs = gs'
  | [], gs' => by cases gs' <;> simp [sameGaps]
  | (gap, t) :: rest, gs' => by
    cases gs' <;> simp [sameGaps, same_iff t, sameGaps_iff rest, Prod.ext_iff]
termination_by structural gs => gs
end

instance : DecidableEq Ty := fun t t' => decidable_of_iff (same t t' = true) (same_iff t t')

end SignatureAlgebra.Ty
