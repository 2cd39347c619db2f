import Mathlib.Data.Vector.Basic

namespace Machine

variable {α β γ : Type*} {n : Nat}

section Intercalate

variable {separator x : β} {parts : List (List β)} {width : Nat}

theorem mem_intercalate (member : x ∈ [separator].intercalate parts) : x = separator ∨ ∃ part ∈ parts, x ∈ part := by
  induction parts with
  | nil => cases member
  | cons part parts ih =>
    cases parts with
    | nil =>
      rw [List.intercalate_singleton] at member
      exact .inr ⟨part, List.mem_cons_self, member⟩
    | cons next parts =>
      rw [List.intercalate_cons_cons, List.mem_append, List.mem_append, List.mem_singleton] at member
      obtain (here | between) | later := member
      · exact .inr ⟨part, List.mem_cons_self, here⟩
      · exact .inl between
      · obtain separated | ⟨other, among, inside⟩ := ih later
        · exact .inl separated
        · exact .inr ⟨other, List.mem_cons_of_mem _ among, inside⟩

theorem length_intercalate_lt (nonempty : parts ≠ []) (bound : ∀ part ∈ parts, part.length ≤ width) :
    ([separator].intercalate parts).length < parts.length * (width + 1) := by
  induction parts with
  | nil => exact absurd rfl nonempty
  | cons part parts ih =>
    have first := bound part List.mem_cons_self
    cases parts with
    | nil =>
      rw [List.intercalate_singleton, List.length_singleton]
      omega
    | cons next parts =>
      have rest := ih (List.cons_ne_nil _ _) fun other member => bound other (List.mem_cons_of_mem _ member)
      rw [List.intercalate_cons_cons, List.length_append, List.length_append, List.length_singleton,
        @List.length_cons _ part, Nat.succ_mul]
      omega

end Intercalate

/-- A way to write the values of a type, with the value that each text may stand for. -/
structure Spelling (α β : Type*) where
  print : α → List β
  value : List β → α
  value_print : ∀ a, value (print a) = a

namespace Spelling

/-- The value of a text, provided that the text is how the value is written. -/
def parse [DecidableEq β] (s : Spelling α β) (text : List β) : Option α :=
  if s.print (s.value text) = text then some (s.value text) else none

theorem parse_eq_some_iff [DecidableEq β] {s : Spelling α β} {text : List β} {a : α} :
    s.parse text = some a ↔ s.print a = text := by
  rw [parse]
  constructor
  · intro parsed
    split at parsed
    · next printed =>
      cases parsed
      exact printed
    · cases parsed
  · intro printed
    rw [← printed, s.value_print, if_pos rfl]

/-- Values of another type, written as the values they are sent to. -/
def comap (s : Spelling α β) (forth : γ → α) (back : α → γ) (inverse : ∀ c, back (forth c) = c) : Spelling γ β where
  print c := s.print (forth c)
  value text := back (s.value text)
  value_print c := by rw [s.value_print, inverse]

/-- A fixed number of values with a separator between them. -/
def sequence [Inhabited α] [BEq β] [LawfulBEq β] (s : Spelling α β) (separator : β)
    (apart : ∀ a, separator ∉ s.print a) (n : Nat) (positive : n ≠ 0) : Spelling (List.Vector α n) β where
  print items := [separator].intercalate (items.toList.map s.print)
  value text := .ofFn fun i => ((text.splitOn separator).map s.value).getD i default
  value_print items := by
    have nonempty : items.toList.map s.print ≠ [] := by
      intro empty
      have length := congrArg List.length empty
      rw [List.length_map, items.toList_length] at length
      exact positive length
    have parts : List.splitOn separator ([separator].intercalate (items.toList.map s.print)) =
        items.toList.map s.print := by
      apply List.splitOn_intercalate _ _ nonempty
      intro part member
      obtain ⟨a, _, rfl⟩ := List.mem_map.mp member
      exact apart a
    have values : (items.toList.map s.print).map s.value = items.toList := by
      rw [List.map_map]
      exact (List.map_congr_left fun a _ => s.value_print a).trans (List.map_id _)
    rw [parts, values]
    apply List.Vector.ext
    intro i
    have inside : i.val < items.toList.length := by
      rw [items.toList_length]
      exact i.isLt
    rw [List.Vector.get_ofFn, List.getD_eq_getElem?_getD, List.getElem?_eq_getElem inside, Option.getD_some]
    rfl

section Sequence

variable [Inhabited α] [BEq β] [LawfulBEq β] {s : Spelling α β} {separator : β}
  (apart : ∀ a, separator ∉ s.print a) (positive : n ≠ 0)

theorem mem_sequence {items : List.Vector α n} {x : β}
    (member : x ∈ (s.sequence separator apart n positive).print items) : x = separator ∨ ∃ a, x ∈ s.print a := by
  obtain separated | ⟨part, among, inside⟩ := mem_intercalate member
  · exact .inl separated
  · obtain ⟨a, _, rfl⟩ := List.mem_map.mp among
    exact .inr ⟨a, inside⟩

theorem sequence_length {width : Nat} (bound : ∀ a, (s.print a).length ≤ width) (items : List.Vector α n) :
    ((s.sequence separator apart n positive).print items).length < n * (width + 1) := by
  have length : (items.toList.map s.print).length = n := by rw [List.length_map, items.toList_length]
  have nonempty : items.toList.map s.print ≠ [] := by
    intro empty
    rw [empty] at length
    exact positive length.symm
  have bounded : ∀ part ∈ items.toList.map s.print, part.length ≤ width := by
    intro part among
    obtain ⟨a, _, rfl⟩ := List.mem_map.mp among
    exact bound a
  calc ([separator].intercalate (items.toList.map s.print)).length
      < (items.toList.map s.print).length * (width + 1) := length_intercalate_lt nonempty bounded
    _ = n * (width + 1) := by rw [length]

end Sequence

end Spelling

/-- The items two by two. -/
def pairs (items : List.Vector α (2 * n)) : List.Vector (α × α) n :=
  .ofFn fun i => (items.get ⟨2 * i, by omega⟩, items.get ⟨2 * i + 1, by omega⟩)

def unpairs (items : List.Vector (α × α) n) : List.Vector α (2 * n) :=
  .ofFn fun i =>
    if i.val % 2 = 0 then (items.get ⟨i / 2, by omega⟩).1 else (items.get ⟨i / 2, by omega⟩).2

theorem unpairs_pairs (items : List.Vector α (2 * n)) : unpairs (pairs items) = items := by
  apply List.Vector.ext
  intro i
  rw [unpairs, List.Vector.get_ofFn, pairs, List.Vector.get_ofFn]
  split
  · next even =>
    apply congrArg items.get
    apply Fin.ext
    show 2 * (i.val / 2) = i.val
    omega
  · next odd =>
    apply congrArg items.get
    apply Fin.ext
    show 2 * (i.val / 2) + 1 = i.val
    omega

end Machine
