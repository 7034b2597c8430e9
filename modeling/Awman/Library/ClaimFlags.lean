import Awman.Library.Interleaving

/-!
# Flags that calls take with a swap

A flag that a call takes by swapping it to true belongs to that call until it lowers it, or leaves
it up for good.  At most one call has it at any time, and while it is up, some call has it or it
was left up.
-/

namespace Awman.Interleaving

variable {σ κ : Type} {config : Config σ κ} {id : Nat} {old position : κ} {shared : σ}
  {holds : κ → Prop} {flag flag' spent spent' : Prop}

namespace Config

/-- At most one call stands at such a position. -/
def Alone (config : Config σ κ) (stands : κ → Prop) : Prop :=
  ∀ first second at_ other, config.calls first = some at_ → config.calls second = some other →
    stands at_ → stands other → first = second

theorem alone_idle : (idle shared : Config σ κ).Alone holds := by
  intro first second at_ other hfirst
  cases hfirst

/-- A call that comes to such a position alone, or stood there, leaves nobody beside it. -/
theorem Alone.moved (h : config.Alone holds) (hold : config.calls id = some old)
    (hcomes : holds position → holds old ∨ ¬config.Some holds) :
    (config.move id position shared).Alone holds := by
  have hbeside : ∀ other at_, other ≠ id → config.calls other = some at_ → holds position →
      ¬holds at_ := by
    intro other at_ hne hother hposition hat
    rcases hcomes hposition with hheld | hnobody
    · exact hne (h other id at_ old hother hold hat hheld)
    · exact hnobody ⟨other, at_, hother, hat⟩
  intro first second at_ other hfirst hsecond hat hother
  rcases calls_move hfirst with ⟨rfl, rfl⟩ | ⟨hne, hbefore⟩
  · rcases calls_move hsecond with ⟨rfl, -⟩ | ⟨hne, hsecond⟩
    · rfl
    · exact absurd hother (hbeside second other hne hsecond hat)
  · rcases calls_move hsecond with ⟨rfl, rfl⟩ | ⟨hne', hsecond⟩
    · exact absurd hat (hbeside first at_ hne hbefore hother)
    · exact h first second at_ other hbefore hsecond hat hother

theorem Alone.started (h : config.Alone holds) (hnot : ¬holds position) :
    (config.move id position shared).Alone holds := by
  intro first second at_ other hfirst hsecond hat hother
  rcases calls_move hfirst with ⟨-, rfl⟩ | ⟨-, hbefore⟩
  · exact absurd hat hnot
  · rcases calls_move hsecond with ⟨-, rfl⟩ | ⟨-, hsecond⟩
    · exact absurd hother hnot
    · exact h first second at_ other hbefore hsecond hat hother

/-- The only call at such a position leaves it, and nobody is there. -/
theorem Alone.left (h : config.Alone holds) (hold : config.calls id = some old) (hheld : holds old)
    (hnot : ¬holds position) :
    ¬(config.move id position shared).Some holds := by
  intro hsome
  rcases Some.before hsome with hmoved | ⟨other, hne, at_, hother, hat⟩
  · exact hnot hmoved
  · exact hne (h other id at_ old hother hold hat hheld)

end Config

/-- The flag is up exactly while the one call that took it has it, or after it was left up. -/
structure Taken (config : Config σ κ) (holds : κ → Prop) (flag spent : Prop) : Prop where
  /-- At most one call has it. -/
  alone : config.Alone holds
  /-- It is up while a call has it. -/
  raised : config.Some holds → flag
  /-- It was not left up while a call has it. -/
  unspent : config.Some holds → ¬spent
  /-- While it is up, some call has it or it was left up. -/
  owed : flag → config.Some holds ∨ spent
  /-- Left up, it is up. -/
  kept : spent → flag

namespace Taken

theorem idle (hflag : ¬flag) (hspent : ¬spent) :
    Taken (Config.idle shared : Config σ κ) holds flag spent where
  alone := Config.alone_idle
  raised := fun h => absurd h Config.not_some_idle
  unspent := fun _ => hspent
  owed := fun h => absurd h hflag
  kept := fun h => absurd h hspent

/-- A call that starts does not have it. -/
theorem started (h : Taken config holds flag spent) (hnew : config.calls id = none)
    (hnot : ¬holds position) (hspent : spent' ↔ spent) :
    Taken (config.move id position shared) holds flag spent' := by
  have hiff : (config.move id position shared).Some holds ↔ config.Some holds :=
    Config.some_start_iff hnew hnot
  rw [← hspent] at h
  constructor
  · exact h.alone.started hnot
  · rw [hiff]; exact h.raised
  · rw [hiff]; exact h.unspent
  · rw [hiff]; exact h.owed
  · exact h.kept

section

variable (h : Taken config holds flag spent) (hold : config.calls id = some old)
include h hold

/-- A step that neither takes nor gives it. -/
theorem stays (hsame : holds position ↔ holds old) (hflag : flag' ↔ flag) (hspent : spent' ↔ spent) :
    Taken (config.move id position shared) holds flag' spent' := by
  have hiff : (config.move id position shared).Some holds ↔ config.Some holds :=
    Config.some_move_iff hold hsame
  rw [← hflag, ← hspent] at h
  constructor
  · exact h.alone.moved hold fun hnow => Or.inl (hsame.mp hnow)
  · rw [hiff]; exact h.raised
  · rw [hiff]; exact h.unspent
  · rw [hiff]; exact h.owed
  · exact h.kept

/-- A call finds the flag down and takes it. -/
theorem takes (hdown : ¬flag) (hnow : holds position) (hflag : flag') (hspent : spent' ↔ spent) :
    Taken (config.move id position shared) holds flag' spent' := by
  have hnobody : ¬config.Some holds := fun hsome => hdown (h.raised hsome)
  have hunspent : ¬spent' := fun hleft => hdown (h.kept (hspent.mp hleft))
  constructor
  · exact h.alone.moved hold fun _ => Or.inr hnobody
  · exact fun _ => hflag
  · exact fun _ => hunspent
  · exact fun _ => Or.inl (Config.Some.moved hnow)
  · exact fun _ => hflag

/-- The call that has it lowers it. -/
theorem gives (hheld : holds old) (hnot : ¬holds position) (hflag : ¬flag') (hspent : spent' ↔ spent) :
    Taken (config.move id position shared) holds flag' spent' := by
  have hnobody : ¬(config.move id position shared).Some holds := h.alone.left hold hheld hnot
  have hunspent : ¬spent' := fun hleft =>
    h.unspent ⟨id, old, hold, hheld⟩ (hspent.mp hleft)
  constructor
  · exact h.alone.moved hold fun hnow => absurd hnow hnot
  · exact fun hsome => absurd hsome hnobody
  · exact fun _ => hunspent
  · exact fun hup => absurd hup hflag
  · exact fun hleft => absurd hleft hunspent

/-- The call that has it is over and leaves it up. -/
theorem leaves (hheld : holds old) (hnot : ¬holds position) (hflag : flag') (hspent : spent') :
    Taken (config.move id position shared) holds flag' spent' := by
  have hnobody : ¬(config.move id position shared).Some holds := h.alone.left hold hheld hnot
  constructor
  · exact h.alone.moved hold fun hnow => absurd hnow hnot
  · exact fun _ => hflag
  · exact fun hsome => absurd hsome hnobody
  · exact fun _ => Or.inr hspent
  · exact fun _ => hflag

end

end Taken

end Awman.Interleaving
