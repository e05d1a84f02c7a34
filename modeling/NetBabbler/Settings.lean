import NetBabbler.Text

/-!
# Communication settings

`cComSettings` of `comsettings.hpp` : the sizes of requests and responses and how they
change from round to round. `ofString` is the constructor from the command line's text.
Its size check covers the requests only (`ofString_requestSize`).
-/

namespace NetBabbler

/-- `cComSettings`. -/
@[ext]
structure ComSettings where
  requestSizeMin : UInt32
  requestSizeMax : UInt32
  responseSizeMin : UInt32
  responseSizeMax : UInt32
  stepWidth : UInt32 := 0
  disconnect : Bool := false
  deriving DecidableEq, Repr

namespace ComSettings

/-- The least size that a request may have. -/
def MIN_SIZE : UInt32 := 32

/-- The `switch` of the constructor. -/
def ofTokens (vec : List (List Char)) : Except ParseError ComSettings :=
  match vec.length with
  | 1 => do
    let size ← unsignedAt vec 0
    pure ⟨size, size, size, size, 0, false⟩
  | 2 => do
    let min ← unsignedAt vec 0
    let max ← unsignedAt vec 1
    pure ⟨min, max, min, max, 0, false⟩
  | 3 => do
    let min ← unsignedAt vec 0
    let max ← unsignedAt vec 1
    let stepWidth ← unsignedAt vec 3
    pure ⟨min, max, min, max, stepWidth, false⟩
  | 4 => do
    let requestSizeMin ← unsignedAt vec 0
    let requestSizeMax ← unsignedAt vec 1
    let responseSizeMin ← unsignedAt vec 2
    let responseSizeMax ← unsignedAt vec 3
    pure ⟨requestSizeMin, requestSizeMax, responseSizeMin, responseSizeMax, 0, false⟩
  | 5 => do
    let requestSizeMin ← unsignedAt vec 0
    let requestSizeMax ← unsignedAt vec 1
    let responseSizeMin ← unsignedAt vec 2
    let responseSizeMax ← unsignedAt vec 3
    let stepWidth ← unsignedAt vec 4
    pure ⟨requestSizeMin, requestSizeMax, responseSizeMin, responseSizeMax, stepWidth, false⟩
  | _ => .error (.rangeError "invalid settings")

/-- `cComSettings (const std::string)`. -/
def ofString (s : String) : Except ParseError ComSettings := do
  let settings ← ofTokens (tokens s.toList)
  if settings.requestSizeMin < MIN_SIZE ∨ settings.requestSizeMax < MIN_SIZE then
    throw (.rangeError "size of request and response must be at least 32 bytes.")
  pure settings

/-- Fixed size. -/
def ofFixed (size : UInt32) : ComSettings :=
  ⟨size, size, size, size, 0, false⟩

/-- Random, equal size for request and response. -/
def ofRand (min max : UInt32) : ComSettings :=
  ⟨min, max, min, max, 0, false⟩

/-- Random, independent size for request and response. -/
def ofRandIndependent (requestSizeMin requestSizeMax responseSizeMin responseSizeMax : UInt32) :
    ComSettings :=
  ⟨requestSizeMin, requestSizeMax, responseSizeMin, responseSizeMax, 0, false⟩

/-- Sweep, equal size for request and response. -/
def ofSweep (min max stepWidth : UInt32) : ComSettings :=
  ⟨min, max, min, max, stepWidth, false⟩

/-- Sweep, independent size for request and response. -/
def ofSweepIndependent
    (requestSizeMin requestSizeMax responseSizeMin responseSizeMax stepWidth : UInt32) :
    ComSettings :=
  ⟨requestSizeMin, requestSizeMax, responseSizeMin, responseSizeMax, stepWidth, false⟩

/-- All requests have one size, and all responses do. -/
def isFixed (c : ComSettings) : Bool :=
  c.requestSizeMin == c.requestSizeMax && c.responseSizeMin == c.responseSizeMax

/-- The sizes are drawn. -/
def isRand (c : ComSettings) : Bool :=
  !c.isFixed && c.stepWidth == 0

/-- The sizes go up in steps. -/
def isSweep (c : ComSettings) : Bool :=
  !c.isFixed && c.stepWidth != 0

/-- What the size check lets through. -/
theorem ofString_requestSize {s : String} {c : ComSettings} (h : ofString s = .ok c) :
    32 ≤ c.requestSizeMin ∧ 32 ≤ c.requestSizeMax := by
  unfold ofString at h
  cases ht : ofTokens (tokens s.toList) with
  | error e =>
    rw [ht] at h
    cases h
  | ok settings =>
    rw [ht] at h
    by_cases hsmall : settings.requestSizeMin < MIN_SIZE ∨ settings.requestSizeMax < MIN_SIZE
    · simp [bind, Except.bind, hsmall, throw, throwThe, MonadExceptOf.throw] at h
    · simp only [bind, Except.bind, hsmall, if_false, pure, Except.pure, Except.ok.injEq] at h
      subst h
      obtain ⟨hmin, hmax⟩ := not_or.mp hsmall
      exact ⟨UInt32.not_lt.mp hmin, UInt32.not_lt.mp hmax⟩

/-- The documented form `min,max,width` is never accepted : it reads a fourth token. -/
theorem ofTokens_three {vec : List (List Char)} (h : vec.length = 3) :
    ∃ e, ofTokens vec = .error e := by
  have hat : unsignedAt vec 3 = .error .outOfRange := by
    rw [unsignedAt, List.getElem?_eq_none (by omega)]
  simp only [ofTokens, h]
  cases unsignedAt vec 0 with
  | error e => exact ⟨e, rfl⟩
  | ok min =>
    cases unsignedAt vec 1 with
    | error e => exact ⟨e, rfl⟩
    | ok max => exact ⟨.outOfRange, by rw [hat]; rfl⟩

example : ofString "100,200,50,60,7" = .ok ⟨100, 200, 50, 60, 7, false⟩ := by
  decide +kernel

end ComSettings

end NetBabbler
