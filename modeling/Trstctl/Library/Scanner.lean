import Trstctl.Library.Result

/-!
# Scanners

A scanner reads a list of symbols lexeme by lexeme.  At the start of each it
sees the symbols behind, the last one first, and the symbols ahead, and decides
how long the lexeme is, which state follows and what to report; or it stops.
-/

namespace Trstctl

/-- A lexeme: how many symbols follow its first one, the state after it and the
report. -/
structure Lexeme (σ ω : Type) where
  more : Nat
  state : σ
  report : ω

namespace Scanner

variable {α σ ω : Type}

/-- The reports of all lexemes, or `none` when the scanner stops.  `pending`
counts the symbols of the current lexeme that are still to be passed. -/
def scan (next : σ → List α → List α → Option (Lexeme σ ω)) :
    Nat → σ → List α → List α → Option (List ω)
  | _, _, _, [] => some []
  | pending + 1, state, behind, symbol :: rest => scan next pending state (symbol :: behind) rest
  | 0, state, behind, symbol :: rest => do
      let lexeme ← next state behind (symbol :: rest)
      let reports ← scan next lexeme.more lexeme.state (symbol :: behind) rest
      return lexeme.report :: reports

variable {next : σ → List α → List α → Option (Lexeme σ ω)}

@[simp] theorem scan_nil (pending : Nat) (state : σ) (behind : List α) :
    scan next pending state behind [] = some [] := by
  cases pending <;> rfl

theorem scan_pending (pending : Nat) (state : σ) (behind ahead : List α) :
    scan next pending state behind ahead =
      scan next 0 state ((ahead.take pending).reverse ++ behind) (ahead.drop pending) := by
  induction pending generalizing behind ahead with
  | zero => simp
  | succ pending ih =>
      cases ahead with
      | nil => simp
      | cons symbol rest =>
          rw [scan, ih]
          simp

theorem scan_cons (state : σ) (behind : List α) (symbol : α) (rest : List α) :
    scan next 0 state behind (symbol :: rest) =
      (next state behind (symbol :: rest)).bind fun lexeme =>
        (scan next 0 lexeme.state ((rest.take lexeme.more).reverse ++ symbol :: behind)
          (rest.drop lexeme.more)).map (lexeme.report :: ·) := by
  rw [scan]
  cases next state behind (symbol :: rest) with
  | none => rfl
  | some lexeme =>
      change (scan next lexeme.more lexeme.state (symbol :: behind) rest).bind
        (fun reports => some (lexeme.report :: reports)) = _
      rw [scan_pending, Option.bind_some, Option.map_eq_bind]
      rfl

theorem scan_behind {next : σ → List α → Option (Lexeme σ ω)} (pending : Nat) (state : σ)
    (behind other ahead : List α) :
    scan (fun state _ => next state) pending state behind ahead =
      scan (fun state _ => next state) pending state other ahead := by
  induction ahead generalizing pending state behind other with
  | nil => rw [scan_nil, scan_nil]
  | cons symbol rest ih =>
      cases pending with
      | succ pending => exact ih pending state _ _
      | zero =>
          rw [scan, scan]
          congr 1
          funext lexeme
          rw [ih lexeme.more lexeme.state (symbol :: behind) (symbol :: other)]

variable {ε : Type}

/-- Read items until nothing is left.  An item changes the state and leaves the
symbols after it; `pending` counts those of the current item that are still to
be passed. -/
def consume (item : σ → List α → Except ε (List α × σ)) : Nat → σ → List α → Except ε σ
  | _, state, [] => .ok state
  | pending + 1, state, _ :: rest => consume item pending state rest
  | 0, state, symbol :: rest => do
      let (left, next) ← item state (symbol :: rest)
      consume item (rest.length - left.length) next rest

theorem consume_keeps {item : σ → List α → Except ε (List α × σ)} {pending : Nat} {state after : σ}
    {symbols : List α} (property : σ → Prop)
    (keeps : ∀ {before ahead left next}, item before ahead = .ok (left, next) →
      property before → property next)
    (succeeds : consume item pending state symbols = .ok after)
    (holds : property state) :
    property after := by
  induction symbols generalizing pending state with
  | nil =>
      cases pending with
      | zero => exact Except.ok.inj succeeds ▸ holds
      | succ pending => exact Except.ok.inj succeeds ▸ holds
  | cons symbol rest ih =>
      cases pending with
      | succ pending => exact ih succeeds holds
      | zero =>
          rw [consume] at succeeds
          obtain ⟨⟨left, next⟩, read, others⟩ := Result.bind_eq_ok.mp succeeds
          exact ih others (keeps read holds)

theorem consume_simulates {τ : Type} {item : σ → List α → Except ε (List α × σ)}
    {other : τ → List α → Except ε (List α × τ)} (related : σ → τ → Prop)
    (step : ∀ {before ahead left next state}, item before ahead = .ok (left, next) →
      related before state → ∃ after, other state ahead = .ok (left, after) ∧ related next after)
    {pending : Nat} {before after : σ} {state : τ} {symbols : List α}
    (succeeds : consume item pending before symbols = .ok after)
    (relates : related before state) :
    ∃ result, consume other pending state symbols = .ok result ∧ related after result := by
  induction symbols generalizing pending before state with
  | nil =>
      cases pending with
      | zero => exact ⟨state, rfl, Except.ok.inj succeeds ▸ relates⟩
      | succ pending => exact ⟨state, rfl, Except.ok.inj succeeds ▸ relates⟩
  | cons symbol rest ih =>
      cases pending with
      | succ pending => exact ih succeeds relates
      | zero =>
          rw [consume] at succeeds
          obtain ⟨⟨left, next⟩, read, others⟩ := Result.bind_eq_ok.mp succeeds
          obtain ⟨following, otherRead, follows⟩ := step read relates
          obtain ⟨result, otherSucceeds, ends⟩ := ih others follows
          refine ⟨result, ?_, ends⟩
          rw [consume, otherRead]
          exact otherSucceeds

theorem consume_pending (item : σ → List α → Except ε (List α × σ)) (pending : Nat) (state : σ)
    (symbols : List α) :
    consume item pending state symbols = consume item 0 state (symbols.drop pending) := by
  induction pending generalizing symbols with
  | zero => rfl
  | succ pending ih =>
      cases symbols with
      | nil => rfl
      | cons symbol rest => exact ih rest

end Scanner
end Trstctl
