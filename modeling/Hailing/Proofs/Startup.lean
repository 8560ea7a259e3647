import Mathlib.Logic.Function.Basic
import Hailing.Json.Decode
import Hailing.Proofs.Radii
import Hailing.Settings.Environment

/-!
# What is accepted at the start

What is set in the environment is read by one parser for each kind of variable, and only
the settings of the dispatch are checked after that. So they are in order, and a sweep has an
interval (`Environment.settings_eq_ok`). The size of the event buffer is not a setting of the
dispatch. It is any number that its parser reads, which is every one that fits in a word
(`Decimal.readWhole_digits`).

A channel has room for at least one notice, and for at most as many as half of a word counts.
The usual size is within these bounds. A size that is set may be out of them on either side,
and it is accepted all the same (`Environment.startup_is_safe_but_for_buffer`).
-/

namespace Hailing

namespace Decimal

/-- A number does not become smaller by more digits. -/
theorem le_foldl_digits (cs : List Char) (n : Nat) :
    n ≤ cs.foldl (fun n c => 10 * n + Text.digitValue c) n := by
  induction cs generalizing n with
  | nil => exact Nat.le_refl n
  | cons c cs ih => exact Nat.le_trans (by omega) (ih (10 * n + Text.digitValue c))

/-- Digits are read as the number that they stand for, if that is not too large. -/
theorem wholeDigits_of_digits {largest n : Nat} {cs : List Char}
    (hdigits : ∀ c ∈ cs, c.isDigit = true)
    (hn : cs.foldl (fun n c => 10 * n + Text.digitValue c) n ≤ largest) :
    wholeDigits largest n cs = .ok (cs.foldl (fun n c => 10 * n + Text.digitValue c) n) := by
  induction cs generalizing n with
  | nil => rfl
  | cons c cs ih =>
      obtain ⟨hc, hcs⟩ := List.forall_mem_cons.1 hdigits
      rw [List.foldl_cons] at hn ⊢
      have hfits : ¬ largest < 10 * n + Text.digitValue c :=
        Nat.not_lt.2 ((le_foldl_digits cs _).trans hn)
      rw [wholeDigits, if_pos hc, if_neg hfits]
      exact ih hcs hn

/-- What is written is read. -/
theorem readWhole_digits {largest n : Nat} (hn : n ≤ largest) :
    readWhole largest (String.ofList (Text.digits n)) = .ok n := by
  have hvalue : (Text.digits n).foldl (fun n c => 10 * n + Text.digitValue c) 0 = n :=
    Text.natOfDigits_digits n
  have hread : wholeDigits largest 0 (Text.digits n) = .ok n := by
    have hfits : (Text.digits n).foldl (fun n c => 10 * n + Text.digitValue c) 0 ≤ largest :=
      hvalue.symm ▸ hn
    rw [wholeDigits_of_digits (fun c hc => Text.isDigit_of_mem_digits hc) hfits, hvalue]
  -- A number is written without a sign, so none is taken off before it is read.
  have hplus : ∀ c ∈ Text.digits n, c ≠ '+' := by
    rintro c hc rfl
    cases Text.isDigit_of_mem_digits hc
  unfold readWhole
  rw [String.toList_ofList]
  split
  · next hnil => exact absurd hnil (Text.digits_ne_nil n)
  · next hone => exact absurd rfl (hplus '+' (by simp [hone]))
  · next hsign => exact absurd rfl (hplus '+' (by simp [hsign]))
  · exact hread

/-- No number that is read is too large. -/
theorem wholeDigits_le {largest n k : Nat} {cs : List Char} (hn : n ≤ largest)
    (h : wholeDigits largest n cs = .ok k) : k ≤ largest := by
  induction cs generalizing n with
  | nil =>
      cases h
      exact hn
  | cons c cs ih =>
      rw [wholeDigits] at h
      dsimp only at h
      split at h
      · split at h
        · cases h
        · next hfits => exact ih (Nat.not_lt.1 hfits) h
      · cases h

theorem readWhole_le {largest k : Nat} {text : String} (h : readWhole largest text = .ok k) :
    k ≤ largest := by
  unfold readWhole at h
  split at h
  · cases h
  · cases h
  · exact wholeDigits_le (Nat.zero_le _) h
  · exact wholeDigits_le (Nat.zero_le _) h

end Decimal

namespace Environment

variable {env : Environment} {started : Startup}

theorem get_eq_ok {α : Type} {read : String → Except Decimal.NumeralFault α} {name : String}
    {usual a : α} :
    env.get read name usual = .ok a ↔
      env name = none ∧ a = usual ∨ ∃ text, env name = some text ∧ read text = .ok a := by
  unfold get
  cases env name with
  | none => simp [eq_comm]
  | some text => cases hread : read text <;> simp [hread]

theorem settings_eq_ok {settings : Settings} :
    env.settings = .ok settings ↔
      env.readSettings = .ok settings ∧ settings.check = .ok () := by
  simp only [Environment.settings, Json.bind_eq_ok]
  constructor
  · rintro ⟨found, hread, _, hcheck, hsame⟩
    cases hsame
    exact ⟨hread, hcheck⟩
  · rintro ⟨hread, hcheck⟩
    exact ⟨settings, hread, (), hcheck, rfl⟩

theorem startup_eq_ok :
    env.startup = .ok started ↔
      env.logFormat = .ok started.logFormat ∧
      env.get (Decimal.readWhole (UInt16.size - 1)) "HTTP_PORT" 3000 = .ok started.httpPort ∧
      env.get (Decimal.readWhole (UInt64.size - 1)) "EVENT_BUFFER_SIZE" 1024 =
        .ok started.eventBufferSize ∧
      env.settings = .ok started.settings ∧ started.logLevel = (env "LOG_LEVEL").getD "info" := by
  simp only [startup, Json.bind_eq_ok]
  constructor
  · rintro ⟨format, hformat, port, hport, size, hsize, settings, hsettings, hsame⟩
    cases hsame
    exact ⟨hformat, hport, hsize, hsettings, rfl⟩
  · rintro ⟨hformat, hport, hsize, hsettings, hlevel⟩
    refine ⟨_, hformat, _, hport, _, hsize, _, hsettings, ?_⟩
    rw [← hlevel]
    rfl

/-- The settings of the dispatch depend on their own variables only. -/
theorem settings_congr {env' : Environment}
    (h : ∀ name, name ≠ "EVENT_BUFFER_SIZE" → env' name = env name) :
    env'.settings = env.settings := by
  have hread : env'.readSettings = env.readSettings := by
    simp only [readSettings, seconds, decimal, get, ne_eq, String.reduceEq, not_false_eq_true, h]
  rw [Environment.settings, hread, Environment.settings]

/-- The variable set to another size. -/
def withBuffer (size : Nat) (env : Environment) : Environment :=
  Function.update env "EVENT_BUFFER_SIZE" (some (String.ofList (Text.digits size)))

theorem startup_withBuffer (h : env.startup = .ok started) {size : Nat}
    (hsize : size < UInt64.size) :
    (env.withBuffer size).startup = .ok { started with eventBufferSize := size } := by
  obtain ⟨hformat, hport, -, hsettings, hlevel⟩ := startup_eq_ok.1 h
  have hothers : ∀ name, name ≠ "EVENT_BUFFER_SIZE" → env.withBuffer size name = env name :=
    fun name hne => Function.update_of_ne hne _ _
  refine startup_eq_ok.2 ⟨?_, ?_, ?_, ?_, ?_⟩
  · rw [logFormat, hothers _ (by decide)]
    exact hformat
  · rw [get, hothers _ (by decide)]
    exact hport
  · refine get_eq_ok.2 (.inr ⟨_, Function.update_self _ _ _, ?_⟩)
    exact Decimal.readWhole_digits (by omega)
  · rw [settings_congr hothers]
    exact hsettings
  · rw [hothers _ (by decide)]
    exact hlevel

/-- A channel can be opened with a buffer of this size. -/
def BufferFits (size : Nat) : Prop := 1 ≤ size ∧ size ≤ (UInt64.size - 1) / 2

/-- With what is accepted at the start the dispatch is in order and a sweep has an interval.
A channel can be opened, unless the variable for its size is set to a number out of bounds;
and any number that fits in a word is accepted there. -/
theorem startup_is_safe_but_for_buffer (env : Environment) (started : Startup)
    (h : env.startup = .ok started) :
    started.settings.check = .ok () ∧ 0 < started.settings.sweepInterval ∧
      started.eventBufferSize < UInt64.size ∧
      (BufferFits started.eventBufferSize ↔
        ∀ text size, env "EVENT_BUFFER_SIZE" = some text →
          Decimal.readWhole (UInt64.size - 1) text = .ok size → BufferFits size) ∧
      ∀ size < UInt64.size,
        (env.withBuffer size).startup = .ok { started with eventBufferSize := size } := by
  obtain ⟨-, -, hsize, hsettings, -⟩ := startup_eq_ok.1 h
  have hcheck := (settings_eq_ok.1 hsettings).2
  have hinterval := (Settings.check_eq_ok.1 hcheck).2.2
  refine ⟨hcheck, Nat.pos_of_ne_zero hinterval, ?_, ?_, fun size => startup_withBuffer h⟩
  · rcases get_eq_ok.1 hsize with ⟨-, husual⟩ | ⟨text, -, hread⟩
    · rw [husual]
      decide
    · have hle := Decimal.readWhole_le hread
      exact Nat.lt_of_le_of_lt hle (by decide)
  · rcases get_eq_ok.1 hsize with ⟨hnone, husual⟩ | ⟨text, htext, hread⟩
    · rw [husual]
      refine iff_of_true ⟨by decide, by decide⟩ fun text size htext => ?_
      rw [hnone] at htext
      cases htext
    · refine ⟨fun hfits text' size htext' hread' => ?_, fun hall => hall text _ htext hread⟩
      obtain rfl := Option.some.inj (htext.symm.trans htext')
      cases hread.symm.trans hread'
      exact hfits

/-- Nothing is set. -/
def unset : Environment := fun _ => none

def usualStartup : Startup :=
  { httpPort := 3000, logLevel := "info", logFormat := .compact, eventBufferSize := 1024,
    settings := {} }

theorem unset_startup : unset.startup = .ok usualStartup := by
  have hcheck : Settings.check {} = .ok () := Settings.check_eq_ok.2 (by decide +kernel)
  exact startup_eq_ok.2 ⟨rfl, rfl, rfl, settings_eq_ok.2 ⟨rfl, hcheck⟩, rfl⟩

theorem startup_is_safe_but_for_buffer_trial :
    unset.startup = .ok usualStartup ∧ BufferFits usualStartup.eventBufferSize ∧
      (unset.withBuffer 7).startup = .ok { usualStartup with eventBufferSize := 7 } := by
  obtain ⟨-, -, -, hfits, hany⟩ := startup_is_safe_but_for_buffer unset usualStartup unset_startup
  exact ⟨unset_startup, hfits.2 fun _ _ htext => by (cases htext), hany 7 (by decide)⟩

def emptyBuffer : Environment := fun name => if name = "EVENT_BUFFER_SIZE" then some "0" else none

/-- A buffer without room is accepted, and no channel can be opened with it. -/
theorem empty_buffer_is_accepted :
    emptyBuffer.startup = .ok { usualStartup with eventBufferSize := 0 } ∧ ¬ BufferFits 0 := by
  have hsame : emptyBuffer = unset.withBuffer 0 := by
    funext name
    rw [withBuffer, Function.update_apply]
    rfl
  rw [hsame]
  exact ⟨startup_withBuffer unset_startup (by decide), fun h => absurd h.1 (by decide)⟩

end Environment

end Hailing
