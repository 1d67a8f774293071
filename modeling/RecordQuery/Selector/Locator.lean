import RecordQuery.Selector.Parse

/-! # Locators

A locator is a selector that is ready to be applied: every condition in it is one that can be
evaluated. This is checked once, when the locator is made from parts; a locator made from a written
selector needs no check, since the selector language has no other operator.

* `Locator`: a source text and supported parts.
* `Locator.ofParts`: a locator from parts, or the first condition that cannot be evaluated.
* `Locator.parse`: a locator from a written selector.
* `Locator.ofParts_eq_ok`, `Locator.parse_eq_ok`: the parts and the selectors that make one. -/

namespace RecordQuery

/-- A **locator**: parts that can all be evaluated, and the text that they came from. -/
structure Locator where
  /-- The text of the selector. -/
  source : String
  /-- The parts. -/
  parts : List Part
  /-- Every condition can be evaluated. -/
  supported : ∀ p ∈ parts, p.Supported
deriving DecidableEq, Repr

/-- A condition that **cannot be evaluated**, and the part text that it came from. -/
structure UnsupportedCondition where
  /-- The condition. -/
  condition : Condition
  /-- The written form of its part. -/
  source : String
deriving DecidableEq, Repr

/-- What is said about a condition that cannot be evaluated. -/
def UnsupportedCondition.message (u : UnsupportedCondition) : String :=
  "Unknown condition type: " ++ Text.quoted u.condition.operator ++ " (from selector: " ++
    u.source ++ ")"

/-- A condition passes the **check** when it is supported. -/
def Condition.check (c : Condition) (source : String) : Except UnsupportedCondition Unit :=
  if c.Supported then .ok () else .error ⟨c, source⟩

/-- A part passes the **check** when its condition, if any, does. -/
def Part.check (p : Part) : Except UnsupportedCondition { p : Part // p.Supported } :=
  match h : p.condition with
  | none => .ok ⟨p, Part.supported_of_none h⟩
  | some c =>
    if hc : c.Supported then .ok ⟨p, (Part.supported_iff_of_some h).mpr hc⟩
    else .error ⟨c, p.source⟩

/-- The parts, each checked in order, or the first condition that cannot be evaluated. -/
def checkParts : List Part → Except UnsupportedCondition (List { p : Part // p.Supported })
  | [] => .ok []
  | p :: ps => do
    let checked ← p.check
    let rest ← checkParts ps
    return checked :: rest

/-! ### Printed forms -/

/-- A truth value as it is printed. -/
def printedBool (b : Bool) : String := if b then "True" else "False"

/-- A part as it is printed. -/
def Part.printed (p : Part) : String :=
  "LocatorPart(" ++ Text.quoted p.label ++ ", direct=" ++ printedBool p.direct ++ ")"

/-- A locator as it is printed. -/
def Locator.printed (l : Locator) : String := "Locator(" ++ Text.quoted l.source ++ ")"

/-! ### Written conditions are supported -/

theorem buildPart_supported {text : List Char} {direct : Bool} {p : Part}
    (h : buildPart text direct = .ok p) : p.Supported := by
  unfold buildPart at h
  split at h
  · simp at h
  · cases h
    intro c hc
    simp only [Option.mem_def, Option.map_eq_some_iff] at hc
    obtain ⟨_, _, rfl⟩ := hc
    rfl

theorem assemble_supported {pending : Bool} {lexemes : List Lexeme} {parts : List Part}
    (h : assemble pending lexemes = .ok parts) : ∀ p ∈ parts, p.Supported := by
  induction lexemes generalizing pending parts with
  | nil => cases h; simp
  | cons lexeme rest ih =>
    obtain ⟨token, place⟩ := lexeme
    cases token with
    | child =>
      rw [assemble] at h
      split at h
      · simp at h
      · exact ih h
    | part text =>
      simp only [assemble, bind, Except.bind] at h
      split at h
      · simp at h
      · rename_i part hpart
        split at h
        · simp at h
        · rename_i parts' hrest
          cases h
          intro p hp
          rcases List.mem_cons.mp hp with rfl | hp
          · exact buildPart_supported hpart
          · exact ih hrest p hp

/-- Every condition of a written selector can be evaluated. -/
theorem parse_supported {selector : String} {parts : List Part}
    (h : parse selector = .ok parts) : ∀ p ∈ parts, p.Supported := by
  unfold parse parseChars at h
  split at h
  · exact assemble_supported h
  · simp at h

namespace Locator

/-- The text of a part list: what the parts are called, separated by spaces. -/
def sourceOf (parts : List Part) : String := " ".intercalate (parts.map Part.label)

/-- A locator **from parts**. -/
def ofParts (parts : List Part) : Except UnsupportedCondition Locator := do
  let checked ← checkParts parts
  return ⟨sourceOf parts, checked.map (·.val), by simp +contextual⟩

/-- A locator **from a written selector**. -/
def parse (selector : String) : Except ParseError Locator :=
  match h : RecordQuery.parse selector with
  | .ok parts => .ok ⟨selector, parts, parse_supported h⟩
  | .error e => .error e

end Locator

/-! ### What makes a locator -/

theorem Part.check_eq_ok {p : Part} (h : p.Supported) : p.check = .ok ⟨p, h⟩ := by
  rw [Part.check]
  split
  · rfl
  · rename_i c hc
    rw [dif_pos ((Part.supported_iff_of_some hc).mp h)]

/-- Parts that can be evaluated pass the check. -/
theorem checkParts_eq_ok {ps : List Part} (h : ∀ p ∈ ps, p.Supported) :
    ∃ checked, checkParts ps = .ok checked ∧ checked.map (·.val) = ps := by
  induction ps with
  | nil => exact ⟨[], rfl, rfl⟩
  | cons p ps ih =>
    obtain ⟨hp, hps⟩ := List.forall_mem_cons.mp h
    obtain ⟨checked, hchecked, hparts⟩ := ih hps
    refine ⟨⟨p, hp⟩ :: checked, ?_, ?_⟩
    · rw [checkParts, Part.check_eq_ok hp, hchecked]
      rfl
    · rw [List.map_cons, hparts]

/-- **Parts that can be evaluated make a locator** with these parts. -/
theorem Locator.ofParts_eq_ok {ps : List Part} (h : ∀ p ∈ ps, p.Supported) :
    Locator.ofParts ps = .ok ⟨Locator.sourceOf ps, ps, h⟩ := by
  obtain ⟨checked, hchecked, hparts⟩ := checkParts_eq_ok h
  subst hparts
  rw [Locator.ofParts, hchecked]
  rfl

/-- A selector that is parsed makes a locator with its parts. -/
theorem Locator.parse_eq_ok {s : String} {parts : List Part} (h : RecordQuery.parse s = .ok parts) :
    Locator.parse s = .ok ⟨s, parts, parse_supported h⟩ := by
  rw [Locator.parse]
  split
  · rename_i parts' hparts
    cases h.symm.trans hparts
    rfl
  · rename_i e he
    exact nomatch h.symm.trans he

theorem Locator.parse_parts {s : String} {l : Locator} (h : Locator.parse s = .ok l) :
    RecordQuery.parse s = .ok l.parts := by
  rw [Locator.parse] at h
  split at h
  · rename_i parts hparts
    cases h
    exact hparts
  · cases h

end RecordQuery
