/-!
Text shown on a terminal. A control character that can begin a command to the
terminal, or be one, is shown as an escape with its two hexadecimal digits, and
all else as it is, line ends included.
-/

namespace JourneyPlanner.Text

/-- Bell, backspace, form feed, escape and delete. -/
def terminalControls : List Char :=
  ['\x07', '\x08', '\x0c', '\x1b', '\x7f']

/-- The control characters beyond ASCII, which begin commands of one character. -/
def isHighControl (c : Char) : Bool :=
  decide (0x80 ≤ c.toNat) && decide (c.toNat ≤ 0x9f)

/-- Two hexadecimal digits of a number below 256. -/
def hexPair (n : Nat) : List Char :=
  [Nat.digitChar (n / 16), Nat.digitChar (n % 16)]

def showChar (c : Char) : List Char :=
  if terminalControls.contains c then '\\' :: 'x' :: hexPair c.toNat
  else if isHighControl c then '\\' :: 'u' :: '\x7b' :: hexPair c.toNat ++ ['\x7d']
  else [c]

def forTerminal (s : String) : String :=
  String.ofList (s.toList.flatMap showChar)

/-- Whether a terminal may act on the character. -/
def isCommand (c : Char) : Bool :=
  terminalControls.contains c || isHighControl c

theorem isCommand_digitChar (n : Nat) : isCommand (Nat.digitChar n) = false := by
  by_cases h : n < 16
  · exact (by decide : ∀ n < 16, isCommand (Nat.digitChar n) = false) n h
  · have hn : Nat.digitChar n = '*' := by
      unfold Nat.digitChar
      repeat rw [if_neg (by omega)]
    rw [hn]
    decide

theorem isCommand_of_mem_showChar {c d : Char} (h : d ∈ showChar c) : isCommand d = false := by
  unfold showChar hexPair at h
  split at h
  case isTrue =>
    simp only [List.mem_cons, List.not_mem_nil, or_false] at h
    rcases h with rfl | rfl | rfl | rfl
    · decide
    · decide
    · exact isCommand_digitChar _
    · exact isCommand_digitChar _
  case isFalse hc =>
    split at h
    case isTrue =>
      simp only [List.cons_append, List.nil_append, List.mem_cons, List.not_mem_nil, or_false] at h
      rcases h with rfl | rfl | rfl | rfl | rfl | rfl
      · decide
      · decide
      · decide
      · exact isCommand_digitChar _
      · exact isCommand_digitChar _
      · decide
    case isFalse hh =>
      simp only [List.mem_singleton] at h
      subst h
      rw [Bool.not_eq_true] at hc hh
      rw [isCommand, hc, hh, Bool.or_false]

/-- Nothing that is shown is a command. -/
theorem isCommand_forTerminal {s : String} {c : Char} (h : c ∈ (forTerminal s).toList) :
    isCommand c = false := by
  rw [forTerminal, String.toList_ofList] at h
  obtain ⟨d, -, hc⟩ := List.mem_flatMap.mp h
  exact isCommand_of_mem_showChar hc

end JourneyPlanner.Text
