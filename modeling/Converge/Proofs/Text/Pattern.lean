import Mathlib.Data.List.Basic

/-!
# Patterns and where they match

A pattern may match at the start of a text in more than one way. The ways are tried in an order: the first of two
alternatives is preferred, and a repetition takes as much as it can. What is found depends on this order, since the
search goes on behind the first way that it finds. Whether a text matches as a whole does not.

## Main Definitions

* `Pattern` — a character of a class, one pattern after the other, alternatives and repetitions.
* `Pattern.ends` — what is left of a text behind each way to match, in order.
* `Pattern.Matches` — a text matches as a whole.
* `Pattern.captures` — the matches of two patterns one behind the other, from left to right.

## Main Statements

* `Pattern.mem_ends_iff` — the ways to match at the start of a text are the texts of the pattern that it begins with.
* `Pattern.ends_many_one` — a run of characters is first taken as a whole.
* `Pattern.captures_of_ends` — the search takes the first way and goes on behind it.
-/

namespace Converge

/-- A character of a class, one pattern after the other, one of two patterns, or one pattern once or more often. -/
inductive Pattern where
  | one (accepts : Char → Bool)
  | seq (first second : Pattern)
  | either (first second : Pattern)
  | many (item : Pattern)

namespace Pattern

variable {p first second item : Pattern} {accepts : Char → Bool} {text cs rest middle : List Char}

/-- What is left behind a step or more, and behind no more steps than so many. More steps come before fewer. -/
def repeated (step : List Char → List (List Char)) : Nat → List Char → List (List Char)
  | 0, _ => []
  | count + 1, cs => (step cs).flatMap fun rest => repeated step count rest ++ [rest]

/-- What is left of a text behind each way to match at its start, the preferred way first. -/
def ends : Pattern → List Char → List (List Char)
  | one _, [] => []
  | one accepts, c :: rest => if accepts c then [rest] else []
  | seq first second, cs => (first.ends cs).flatMap second.ends
  | either first second, cs => first.ends cs ++ second.ends cs
  -- Each item takes a character, so there are no more items than characters.
  | many item, cs => repeated item.ends cs.length cs

/-- A text matches as a whole. -/
inductive Matches : Pattern → List Char → Prop
  | one {accepts : Char → Bool} {c : Char} (h : accepts c = true) : Matches (one accepts) [c]
  | seq {first second : Pattern} {front back : List Char} (hfront : Matches first front) (hback : Matches second back) :
      Matches (seq first second) (front ++ back)
  | left {first second : Pattern} {text : List Char} (h : Matches first text) : Matches (either first second) text
  | right {first second : Pattern} {text : List Char} (h : Matches second text) : Matches (either first second) text
  | once {item : Pattern} {text : List Char} (h : Matches item text) : Matches (many item) text
  | more {item : Pattern} {front back : List Char} (hfront : Matches item front) (hback : Matches (many item) back) :
      Matches (many item) (front ++ back)

/-- No pattern matches nothing. -/
theorem Matches.length_pos (h : Matches p text) : 0 < text.length := by
  induction h with
  | one => exact Nat.one_pos
  | seq _ _ ih | more _ _ ih =>
      rw [List.length_append]
      omega
  | left _ ih | right _ ih | once _ ih => exact ih

theorem matches_one_iff : Matches (one accepts) text ↔ ∃ c, accepts c = true ∧ text = [c] := by
  constructor
  · rintro ⟨h⟩
    exact ⟨_, h, rfl⟩
  · rintro ⟨c, h, rfl⟩
    exact .one h

theorem matches_seq_iff : Matches (seq first second) text ↔
    ∃ front back, Matches first front ∧ Matches second back ∧ text = front ++ back := by
  constructor
  · intro h
    cases h with
    | seq hfront hback => exact ⟨_, _, hfront, hback, rfl⟩
  · rintro ⟨front, back, hfront, hback, rfl⟩
    exact .seq hfront hback

theorem matches_either_iff : Matches (either first second) text ↔ Matches first text ∨ Matches second text := by
  constructor
  · intro h
    cases h with
    | left h => exact .inl h
    | right h => exact .inr h
  · rintro (h | h)
    · exact .left h
    · exact .right h

/-- A run of characters of a class matches as a whole. -/
theorem matches_many_one_iff : Matches (many (one accepts)) text ↔ text ≠ [] ∧ ∀ c ∈ text, accepts c = true := by
  constructor
  · generalize hp : many (one accepts) = p
    intro h
    induction h with
    | one | seq | left | right => cases hp
    | once h =>
        cases hp
        obtain ⟨c, hc, rfl⟩ := matches_one_iff.1 h
        exact ⟨List.cons_ne_nil _ _, List.forall_mem_singleton.2 hc⟩
    | more hfront hback _ ih =>
        cases hp
        obtain ⟨c, hc, rfl⟩ := matches_one_iff.1 hfront
        exact ⟨List.cons_ne_nil _ _, List.forall_mem_cons.2 ⟨hc, (ih rfl).2⟩⟩
  · rintro ⟨nonempty, h⟩
    induction text with
    | nil => exact absurd rfl nonempty
    | cons c text ih =>
        rw [List.forall_mem_cons] at h
        cases text with
        | nil => exact .once (.one h.1)
        | cons d text => exact .more (.one h.1) (ih (List.cons_ne_nil _ _) h.2)

/-! ### The ways to match -/

theorem mem_repeated {step : List Char → List (List Char)} {count : Nat} :
    rest ∈ repeated step (count + 1) cs ↔ ∃ middle ∈ step cs, rest ∈ repeated step count middle ∨ rest = middle := by
  simp only [repeated, List.mem_flatMap, List.mem_append, List.mem_singleton]

/-- **The ways to match at the start of a text** are the texts of the pattern that it begins with. -/
theorem mem_ends_iff : rest ∈ p.ends cs ↔ ∃ text, Matches p text ∧ cs = text ++ rest := by
  induction p generalizing cs rest with
  | one accepts =>
      simp only [matches_one_iff]
      constructor
      · intro h
        cases cs with
        | nil => cases h
        | cons c cs =>
            rw [ends] at h
            split at h
            · next hc =>
                cases List.mem_singleton.1 h
                exact ⟨[c], ⟨c, hc, rfl⟩, rfl⟩
            · cases h
      · rintro ⟨_, ⟨c, hc, rfl⟩, rfl⟩
        rw [List.singleton_append, ends, if_pos hc]
        exact List.mem_singleton_self rest
  | seq first second ihFirst ihSecond =>
      simp only [ends, List.mem_flatMap, matches_seq_iff]
      constructor
      · rintro ⟨middle, hmiddle, hrest⟩
        obtain ⟨front, hfront, rfl⟩ := ihFirst.1 hmiddle
        obtain ⟨back, hback, rfl⟩ := ihSecond.1 hrest
        exact ⟨front ++ back, ⟨front, back, hfront, hback, rfl⟩, (List.append_assoc _ _ _).symm⟩
      · rintro ⟨_, ⟨front, back, hfront, hback, rfl⟩, rfl⟩
        exact ⟨back ++ rest, ihFirst.2 ⟨front, hfront, List.append_assoc _ _ _⟩, ihSecond.2 ⟨back, hback, rfl⟩⟩
  | either first second ihFirst ihSecond =>
      simp only [ends, List.mem_append, ihFirst, ihSecond, matches_either_iff]
      constructor
      · rintro (⟨text, h, rfl⟩ | ⟨text, h, rfl⟩)
        · exact ⟨text, .inl h, rfl⟩
        · exact ⟨text, .inr h, rfl⟩
      · rintro ⟨text, h | h, rfl⟩
        · exact .inl ⟨text, h, rfl⟩
        · exact .inr ⟨text, h, rfl⟩
  | many item ih =>
      rw [ends]
      constructor
      · generalize cs.length = count
        intro h
        induction count generalizing cs with
        | zero => cases h
        | succ count ihCount =>
            obtain ⟨middle, hmiddle, hrest⟩ := mem_repeated.1 h
            obtain ⟨front, hfront, rfl⟩ := ih.1 hmiddle
            obtain hrest | rfl := hrest
            · obtain ⟨back, hback, rfl⟩ := ihCount hrest
              exact ⟨front ++ back, .more hfront hback, (List.append_assoc _ _ _).symm⟩
            · exact ⟨front, .once hfront, rfl⟩
      · rintro ⟨text, h, rfl⟩
        suffices ∀ count, text.length ≤ count → rest ∈ repeated item.ends count (text ++ rest) from
          this _ (by rw [List.length_append]; omega)
        generalize hp : many item = p at h
        induction h with
        | one | seq | left | right => cases hp
        | @once item text h =>
            cases hp
            intro count hcount
            have hpos := h.length_pos
            obtain ⟨count, rfl⟩ : ∃ n, count = n + 1 := ⟨count - 1, by omega⟩
            exact mem_repeated.2 ⟨rest, ih.2 ⟨text, h, rfl⟩, .inr rfl⟩
        | @more item front back hfront hback _ ihBack =>
            cases hp
            intro count hcount
            have hpos := hfront.length_pos
            rw [List.length_append] at hcount
            obtain ⟨count, rfl⟩ : ∃ n, count = n + 1 := ⟨count - 1, by omega⟩
            exact mem_repeated.2 ⟨back ++ rest, ih.2 ⟨front, hfront, List.append_assoc _ _ _⟩,
              .inl (ihBack rfl count (by omega))⟩

/-- A text matches as a whole exactly if one of the ways to match leaves nothing. -/
theorem nil_mem_ends_iff : [] ∈ p.ends text ↔ Matches p text := by
  rw [mem_ends_iff]
  constructor
  · rintro ⟨text, h, rfl⟩
    rwa [List.append_nil]
  · exact fun h => ⟨text, h, (List.append_nil text).symm⟩

theorem length_lt_of_mem_ends (h : rest ∈ p.ends cs) : rest.length < cs.length := by
  obtain ⟨text, htext, rfl⟩ := mem_ends_iff.1 h
  have hpos := htext.length_pos
  rw [List.length_append]
  omega

/-! ### Runs of characters -/

theorem ends_one_of_head (h : ∀ c ∈ cs.head?, accepts c = false) : (one accepts).ends cs = [] := by
  cases cs with
  | nil => rfl
  | cons c cs => rw [ends, h c rfl, if_neg Bool.false_ne_true]

/-- **A run of characters is first taken as a whole**, if no other character of the class comes behind it. -/
theorem ends_many_one {run : List Char} (nonempty : run ≠ []) (hrun : ∀ c ∈ run, accepts c = true)
    (hrest : ∀ c ∈ rest.head?, accepts c = false) : ((many (one accepts)).ends (run ++ rest)).head? = some rest := by
  rw [ends]
  suffices ∀ count, run.length ≤ count → (repeated (one accepts).ends count (run ++ rest)).head? = some rest from
    this _ (by rw [List.length_append]; omega)
  induction run with
  | nil => exact absurd rfl nonempty
  | cons c run ih =>
      rw [List.forall_mem_cons] at hrun
      intro count hcount
      rw [List.length_cons] at hcount
      obtain ⟨count, rfl⟩ : ∃ n, count = n + 1 := ⟨count - 1, by omega⟩
      rw [repeated, List.cons_append, ends, if_pos hrun.1, List.flatMap_singleton]
      cases run with
      | nil =>
          cases count with
          | zero => rfl
          | succ count => rw [List.nil_append, repeated, ends_one_of_head hrest]; rfl
      | cons d run =>
          have hrepeated := ih (List.cons_ne_nil _ _) hrun.2 count (by omega)
          rw [List.head?_append, hrepeated, Option.some_or]

/-! ### Searching -/

/-- What two patterns take of a text one behind the other, and what is left: the first way to match at its start. -/
def capture? (first second : Pattern) (cs : List Char) : Option (List Char × List Char × List Char) :=
  ((first.ends cs).flatMap fun middle => (second.ends middle).map fun rest =>
    (cs.take (cs.length - middle.length), middle.take (middle.length - rest.length), rest)).head?

theorem length_lt_of_capture? {front back : List Char} (h : capture? first second cs = some (front, back, rest)) :
    rest.length < cs.length := by
  obtain ⟨middle, hmiddle, hmem⟩ := List.mem_flatMap.1 (List.mem_of_head? h)
  obtain ⟨left, hleft, heq⟩ := List.mem_map.1 hmem
  cases heq
  exact Nat.lt_trans (length_lt_of_mem_ends hleft) (length_lt_of_mem_ends hmiddle)

/-- What two patterns take of a text one behind the other, at each place where they match. The search goes from left to
right, and goes on behind what has been taken. -/
def captures (first second : Pattern) (cs : List Char) : List (List Char × List Char) :=
  match cs with
  | [] => []
  | c :: cs =>
      match _h : capture? first second (c :: cs) with
      | some (front, back, rest) => (front, back) :: captures first second rest
      | none => captures first second cs
termination_by cs.length
decreasing_by
  · exact length_lt_of_capture? _h
  · exact Nat.lt_succ_self _

/-- **The search takes the first way to match and goes on behind it.** -/
theorem captures_of_ends {front back : List Char}
    (hfront : (first.ends (front ++ (back ++ rest))).head? = some (back ++ rest))
    (hback : (second.ends (back ++ rest)).head? = some rest) :
    captures first second (front ++ (back ++ rest)) = (front, back) :: captures first second rest := by
  have hcapture : capture? first second (front ++ (back ++ rest)) = some (front, back, rest) := by
    obtain ⟨others, hothers⟩ := List.head?_eq_some_iff.1 hfront
    obtain ⟨further, hfurther⟩ := List.head?_eq_some_iff.1 hback
    rw [capture?, hothers, List.flatMap_cons, hfurther, List.map_cons, List.cons_append, List.head?_cons]
    simp
  have hlength := length_lt_of_capture? hcapture
  cases hcs : front ++ (back ++ rest) with
  | nil =>
      rw [hcs] at hlength
      cases hlength
  | cons c cs =>
      rw [hcs] at hcapture
      rw [captures]
      split
      · next h =>
          cases hcapture.symm.trans h
          rfl
      · next h => cases hcapture.symm.trans h

end Pattern

end Converge
