/-
**Finite maps from names, in name order.**

A map is the list of its values in the order of their names, each with the number of names skipped
since the one before. No other list says the same, so two maps are equal as data exactly when they
bind the same names to the same values (`NameMap.ext`), and no side condition on the order is ever
needed.

* `NameMap.toList` — the bindings, names strictly increasing.
* `NameMap.find?`, `NameMap.insert`, `NameMap.erase` — look up, bind, unbind.
* `NameMap.map`, `NameMap.mapM`, `NameMap.zip?` — change or pair the values, keep the names.
-/
import SignatureAlgebra.Name

namespace SignatureAlgebra

/-- A finite map from names: every value with the number of names skipped before it. -/
structure NameMap (α : Type) where
  gaps : List (Nat × α)
deriving DecidableEq, Repr

namespace NameMap

variable {α β γ : Type}

def empty : NameMap α := ⟨[]⟩

instance : Inhabited (NameMap α) := ⟨empty⟩

def isEmpty (m : NameMap α) : Bool := m.gaps.isEmpty

/-- The bindings of a list of gaps, the first gap counted from `start`. -/
def listFrom (start : Nat) : List (Nat × α) → List (Name × α)
  | [] => []
  | (gap, value) :: rest => (⟨start + gap⟩, value) :: listFrom (start + gap + 1) rest

/-- The bindings in name order. -/
def toList (m : NameMap α) : List (Name × α) := listFrom 0 m.gaps

/-- The bound names, in order. -/
def keys (m : NameMap α) : List Name := m.toList.map Prod.fst

def values (m : NameMap α) : List α := m.gaps.map Prod.snd

/-- Looks up the name that lies `distance` names after the start of the gaps. -/
def findGap (distance : Nat) : List (Nat × α) → Option α
  | [] => none
  | (gap, value) :: rest =>
    if distance < gap then none
    else if distance = gap then some value
    else findGap (distance - gap - 1) rest

/-- The value bound to a name. -/
def find? (m : NameMap α) (name : Name) : Option α := findGap name.index m.gaps

def contains (m : NameMap α) (name : Name) : Bool := (m.find? name).isSome

/-- Binds the name that lies `distance` names after the start of the gaps. -/
def insertGap (distance : Nat) (new : α) : List (Nat × α) → List (Nat × α)
  | [] => [(distance, new)]
  | (gap, value) :: rest =>
    if distance < gap then (distance, new) :: (gap - distance - 1, value) :: rest
    else if distance = gap then (gap, new) :: rest
    else (gap, value) :: insertGap (distance - gap - 1) new rest

/-- Binds a name, in place of what it was bound to. -/
def insert (m : NameMap α) (name : Name) (value : α) : NameMap α :=
  ⟨insertGap name.index value m.gaps⟩

/-- Moves the start of the gaps back by `distance` names. -/
def widen (distance : Nat) : List (Nat × α) → List (Nat × α)
  | [] => []
  | (gap, value) :: rest => (distance + gap, value) :: rest

/-- Unbinds the name that lies `distance` names after the start of the gaps. -/
def eraseGap (distance : Nat) : List (Nat × α) → List (Nat × α)
  | [] => []
  | (gap, value) :: rest =>
    if distance < gap then (gap, value) :: rest
    else if distance = gap then widen (gap + 1) rest
    else (gap, value) :: eraseGap (distance - gap - 1) rest

def erase (m : NameMap α) (name : Name) : NameMap α := ⟨eraseGap name.index m.gaps⟩

/-- Binds the names of a list from left to right, so the last value of a name stays. -/
def ofList (bindings : List (Name × α)) : NameMap α :=
  bindings.foldl (fun m binding => m.insert binding.1 binding.2) empty

def map (f : α → β) (m : NameMap α) : NameMap β := ⟨m.gaps.map fun entry => (entry.1, f entry.2)⟩

def mapM {M : Type → Type} [Monad M] (f : α → M β) (m : NameMap α) : M (NameMap β) := do
  return ⟨← m.gaps.mapM fun entry => do return (entry.1, ← f entry.2)⟩

/-- Changes or drops every binding. -/
def filterMap (f : Name → α → Option β) (m : NameMap α) : NameMap β :=
  ofList (m.toList.filterMap fun binding => (f binding.1 binding.2).map (binding.1, ·))

/-- Pairs the values of two lists of gaps that skip the same names. -/
def zipGaps? : List (Nat × α) → List (Nat × β) → Option (List (Nat × (α × β)))
  | [], [] => some []
  | (gap, a) :: rest, (gap', b) :: rest' =>
    if gap = gap' then (zipGaps? rest rest').map ((gap, (a, b)) :: ·) else none
  | _, _ => none

/-- Pairs the values of two maps that bind the same names. -/
def zip? (m : NameMap α) (m' : NameMap β) : Option (NameMap (α × β)) :=
  (zipGaps? m.gaps m'.gaps).map NameMap.mk

/-! ### Laws of the operations -/

@[simp] theorem find?_empty (name : Name) : (empty : NameMap α).find? name = none := rfl

theorem findGap_insertGap (distance distance' : Nat) (new : α) (gaps : List (Nat × α)) :
    findGap distance' (insertGap distance new gaps) =
      if distance' = distance then some new else findGap distance' gaps := by
  induction gaps generalizing distance distance' with
  | nil => simp only [insertGap, findGap]; grind
  | cons entry rest ih => obtain ⟨gap, value⟩ := entry; grind [insertGap, findGap]

/-- A binding is found under its name, and no other look-up changes. -/
theorem find?_insert (m : NameMap α) (name name' : Name) (value : α) :
    (m.insert name value).find? name' = if name' = name then some value else m.find? name' := by
  have cases : name'.index = name.index ↔ name' = name := by cases name; cases name'; simp
  simp only [find?, insert, findGap_insertGap, cases]

theorem findGap_widen (distance distance' : Nat) (gaps : List (Nat × α)) :
    findGap distance' (widen distance gaps) =
      if distance' < distance then none else findGap (distance' - distance) gaps := by
  cases gaps with
  | nil => simp [widen, findGap]
  | cons entry rest => obtain ⟨gap, value⟩ := entry; grind [widen, findGap]

theorem findGap_eraseGap (distance distance' : Nat) (gaps : List (Nat × α)) :
    findGap distance' (eraseGap distance gaps) =
      if distance' = distance then none else findGap distance' gaps := by
  induction gaps generalizing distance distance' with
  | nil => simp [eraseGap, findGap]
  | cons entry rest ih => obtain ⟨gap, value⟩ := entry; grind [eraseGap, findGap, findGap_widen]

/-- An unbound name is not found, and no other look-up changes. -/
theorem find?_erase (m : NameMap α) (name name' : Name) :
    (m.erase name).find? name' = if name' = name then none else m.find? name' := by
  have cases : name'.index = name.index ↔ name' = name := by cases name; cases name'; simp
  simp only [find?, erase, findGap_eraseGap, cases]

theorem eq_of_findGap_eq {gaps gaps' : List (Nat × α)}
    (same : ∀ distance, findGap distance gaps = findGap distance gaps') : gaps = gaps' := by
  induction gaps generalizing gaps' with
  | nil =>
    cases gaps' with
    | nil => rfl
    | cons entry rest => have := same entry.1; simp [findGap] at this
  | cons entry rest ih =>
    obtain ⟨gap, value⟩ := entry
    cases gaps' with
    | nil => have := same gap; simp [findGap] at this
    | cons entry' rest' =>
      obtain ⟨gap', value'⟩ := entry'
      have first := same gap
      have first' := same gap'
      have equal : gap = gap' := by grind [findGap]
      subst equal
      have head : value = value' := by simpa [findGap] using first
      have tail : rest = rest' := ih fun distance => by
        have := same (gap + 1 + distance)
        grind [findGap]
      rw [head, tail]

/-- Two maps that find the same are equal. -/
theorem ext {m m' : NameMap α} (same : ∀ name, m.find? name = m'.find? name) : m = m' := by
  cases m; cases m'
  simpa using eq_of_findGap_eq fun distance => same ⟨distance⟩

@[simp] theorem map_id (m : NameMap α) : m.map id = m := by simp [map]

theorem map_map (f : α → β) (g : β → γ) (m : NameMap α) :
    (m.map f).map g = m.map (g ∘ f) := by simp [map]

@[simp] theorem values_map (f : α → β) (m : NameMap α) : (m.map f).values = m.values.map f := by
  simp [map, values]

theorem map_congr {f g : α → β} {m : NameMap α} (same : ∀ a ∈ m.values, f a = g a) :
    m.map f = m.map g := by
  obtain ⟨gaps⟩ := m
  simp only [map, mk.injEq, List.map_inj_left, Prod.mk.injEq, true_and]
  intro entry member
  exact same entry.2 (List.mem_map.2 ⟨entry, member, rfl⟩)

end NameMap

end SignatureAlgebra
