import Hailing.Proofs.TimeLeft

/-!
# Longer windows

How long a driver may think about an offer is a setting that nothing checks: whatever
settings are accepted with one window are accepted with any other. A longer window never
shows less time for an offer (`longer_window_shows_more`), as long as the time that is left
can be reckoned with (`Offer.Countable`).

For most windows it can, whatever the clock shows, since the calendar is short
(`Offer.countable_of_le`). But a window is cut down to the longest span there is, and this
leaves no room: if the clock is set back after an offer was made, more is left than the
longest span, and nothing is listed at all (`longest_window_lists_nothing`).
-/

namespace Hailing

open Time (Instant Span)

namespace Offer

variable {w₁ w₂ : Nat} {now : Instant} {o : Offer}

theorem timeLeft_mono (h : w₁ ≤ w₂) (now : Instant) (o : Offer) :
    o.timeLeft (.ofWait w₁) now ≤ o.timeLeft (.ofWait w₂) now := by
  show min (w₁ : Int) _ * 1000000 - _ ≤ min (w₂ : Int) _ * 1000000 - _
  omega

theorem Countable.of_le (hw : w₁ ≤ w₂) (h : o.Countable (.ofWait w₂) now) :
    o.Countable (.ofWait w₁) now := by
  have hle := timeLeft_mono hw now o
  have hfirst := tdiv_cases (o.timeLeft (.ofWait w₁) now) 1000000
  have hsecond := tdiv_cases (o.timeLeft (.ofWait w₂) now) 1000000
  unfold Countable at h ⊢
  omega

theorem secondsLeft_mono (hw : w₁ ≤ w₂) (now : Instant) (o : Offer) :
    o.secondsLeft (.ofWait w₁) now ≤ o.secondsLeft (.ofWait w₂) now := by
  have hle := timeLeft_mono hw now o
  have hfirst := tdiv_cases (o.timeLeft (.ofWait w₁) now) 1000000
  have hsecond := tdiv_cases (o.timeLeft (.ofWait w₂) now) 1000000
  unfold secondsLeft
  omega

/-- The calendar is less than 17 million billion milliseconds long. -/
theorem neg_lt_sub (a b : Instant) : -17000000000000000 * 1000000 < (a - b).nanos := by
  have hfirst := Time.firstDay_eq ▸ a.day_ge
  have hlast := Time.lastDay_eq ▸ b.day_le
  have := b.second_lt
  have := b.nano_lt_two
  show (_ : Int) < ((a.day - b.day) * 86400 + (a.second - b.second) + _) * Time.nanosPerSecond +
    (a.nano - b.nano)
  unfold Time.nanosPerSecond
  split <;> try split
  all_goals omega

theorem countable_of_le (h : w₁ ≤ 9200000000000000000) (now : Instant) (o : Offer) :
    o.Countable (.ofWait w₁) now := by
  have hback := neg_lt_sub now o.requestedAt
  have hmillis := tdiv_cases (o.timeLeft (.ofWait w₁) now) 1000000
  have hleft : o.timeLeft (.ofWait w₁) now =
    min (w₁ : Int) Span.limitMillis * 1000000 - (now - o.requestedAt).nanos := rfl
  unfold Countable
  unfold Span.limitMillis at hleft
  omega

end Offer

namespace Desk

/-- The desk with another time to answer. -/
def withWindow (ms : Nat) (desk : Desk) : Desk :=
  { desk with floor :=
      { desk.floor with settings := { desk.floor.settings with offerWindow := ms } } }

variable {desk : Desk} {driver : Uuid} {w₁ w₂ : Nat}

theorem withWindow_shows {listed : List Offer.View}
    (h : (desk.withWindow w₁).offersOf driver = .ok listed) :
    List.Forall₂ (fun x => Offer.View.Shows (.ofWait w₁) desk.now x.1 x.2)
      (desk.outTo driver) listed := offersOf_shows h

theorem withWindow_isOk_iff : (∃ listed, (desk.withWindow w₁).offersOf driver = .ok listed) ↔
    ∀ docket ∈ desk.openDockets, ∀ offer ∈ docket.offersTo driver,
      offer.timeLeft (.ofWait w₁) desk.now ≤ Span.limit := by
  have hout : ∀ x, x ∈ (desk.withWindow w₁).outTo driver ↔
      x.1 ∈ desk.openDockets ∧ x.2 ∈ x.1.offersTo driver := fun _ => mem_outTo
  rw [offersOf_isOk_iff]
  constructor
  · intro h docket hd offer ho
    exact (remainingSeconds_isOk_iff (Span.ofWait_nonneg _)).1
      (h (docket, offer) ((hout _).2 ⟨hd, ho⟩))
  · intro h x hx
    obtain ⟨hd, ho⟩ := (hout x).1 hx
    exact (remainingSeconds_isOk_iff (Span.ofWait_nonneg _)).2 (h x.1 hd x.2 ho)

/-- What a longer window changes of a view: it has as much time left or more, and in both
cases the time that there is. -/
structure ShowsMore (desk : Desk) (w₁ w₂ : Nat) (v₁ v₂ : Offer.View) : Prop where
  same : v₁ = { v₂ with remainingSeconds := v₁.remainingSeconds }
  le : v₁.remainingSeconds ≤ v₂.remainingSeconds
  reckoned : ∃ docket ∈ desk.openDockets, ∃ offer ∈ docket.offers, v₁.offer = offer.id ∧
    v₁.remainingSeconds.toInt = offer.secondsLeft (.ofWait w₁) desk.now ∧
    v₂.remainingSeconds.toInt = offer.secondsLeft (.ofWait w₂) desk.now

theorem showsMore_of_shows (hle : w₁ ≤ w₂) {docket : Docket} (hd : docket ∈ desk.openDockets)
    {offer : Offer} (ho : offer ∈ docket.offers) (hcount : offer.Countable (.ofWait w₂) desk.now)
    {v₁ v₂ : Offer.View} (h₁ : v₁.Shows (.ofWait w₁) desk.now docket offer)
    (h₂ : v₂.Shows (.ofWait w₂) desk.now docket offer) : desk.ShowsMore w₁ w₂ v₁ v₂ := by
  have hseconds : ∀ {w v}, offer.Countable (.ofWait w) desk.now →
      Offer.View.Shows (.ofWait w) desk.now docket offer v →
      v.remainingSeconds.toInt = offer.secondsLeft (.ofWait w) desk.now := by
    intro w v hcount hv
    obtain ⟨seconds, hr, hvalue⟩ := remainingSeconds_of_countable (Span.ofWait_nonneg w) hcount
    rwa [← Except.ok.inj (hv.remaining.symm.trans hr)] at hvalue
  have hs₁ := hseconds (.of_le hle hcount) h₁
  have hs₂ := hseconds hcount h₂
  refine ⟨?_, ?_, docket, hd, offer, ho, h₁.offer, hs₁, hs₂⟩
  · obtain ⟨ho₁, hi₁, hc₁, hp₁, hk₁, ht₁, -⟩ := h₁
    obtain ⟨ho₂, hi₂, hc₂, hp₂, hk₂, ht₂, -⟩ := h₂
    rw [ho₂, ← ho₁, hi₂, ← hi₁, hc₂, ← hc₁, hk₂, ← hk₁, ht₂, ← ht₁,
      ← Option.some.inj (hp₁.symm.trans hp₂)]
  · rw [Int64.le_iff_toInt_le, hs₁, hs₂]
    exact Offer.secondsLeft_mono hle _ _

/-- Settings are accepted with one window if they are with another. With the longer of two
windows the same offers are listed in the same order, each with at least as much time left,
and nothing wraps around or fails on the way, as long as the time that is left with it can
be reckoned with. It can with every window of up to 291 million years, whatever the clock
shows. With any window at all there is a list exactly if no more time is left than the
longest span. -/
theorem longer_window_shows_more (desk : Desk) (driver : Uuid) {w₁ w₂ : Nat} (hle : w₁ ≤ w₂) :
    (desk.withWindow w₁).settings.check = (desk.withWindow w₂).settings.check ∧
    ((∀ docket ∈ desk.openDockets, ∀ offer ∈ docket.offersTo driver,
        offer.Countable (.ofWait w₂) desk.now) →
      ∃ listed₁ listed₂, (desk.withWindow w₁).offersOf driver = .ok listed₁ ∧
        (desk.withWindow w₂).offersOf driver = .ok listed₂ ∧
        List.Forall₂ (desk.ShowsMore w₁ w₂) listed₁ listed₂) ∧
    (w₂ ≤ 9200000000000000000 → ∀ offer : Offer, offer.Countable (.ofWait w₂) desk.now) ∧
    ((∃ listed₂, (desk.withWindow w₂).offersOf driver = .ok listed₂) ↔
      ∀ docket ∈ desk.openDockets, ∀ offer ∈ docket.offersTo driver,
        offer.timeLeft (.ofWait w₂) desk.now ≤ Span.limit) := by
  refine ⟨rfl, fun hcount => ?_, fun hw offer => Offer.countable_of_le hw _ _,
    withWindow_isOk_iff⟩
  obtain ⟨listed₁, h₁⟩ := withWindow_isOk_iff.2 fun docket hd offer ho =>
    (Offer.Countable.of_le hle (hcount docket hd offer ho)).timeLeft_le
  obtain ⟨listed₂, h₂⟩ := withWindow_isOk_iff.2 fun docket hd offer ho =>
    (hcount docket hd offer ho).timeLeft_le
  refine ⟨listed₁, listed₂, h₁, h₂, ?_⟩
  refine (forall₂_beside (withWindow_shows h₁) (withWindow_shows h₂)).imp fun v₁ v₂ hv => ?_
  obtain ⟨⟨docket, offer⟩, hout, hv₁, hv₂⟩ := hv
  obtain ⟨hd, ho⟩ := mem_outTo.1 hout
  exact showsMore_of_shows hle hd (Docket.mem_offersTo.1 ho).2.2.1 (hcount docket hd offer ho)
    hv₁ hv₂

/-- With an hour to answer instead of 25 seconds. -/
theorem longer_window_shows_more_trial :
    25000 ≤ 3600000 ∧ ∃ listed₁ listed₂,
      ((openDesk {} trialStart).withWindow 25000).offersOf (.ofNat 9) = .ok listed₁ ∧
      ((openDesk {} trialStart).withWindow 3600000).offersOf (.ofNat 9) = .ok listed₂ ∧
      List.Forall₂ ((openDesk {} trialStart).ShowsMore 25000 3600000) listed₁ listed₂ := by
  obtain ⟨-, hlists, hcount, -⟩ := longer_window_shows_more (openDesk {} trialStart) (.ofNat 9)
    (show 25000 ≤ 3600000 by decide)
  exact ⟨by decide, hlists fun _ _ offer _ => hcount (by decide) offer⟩

/-- An environment in which there is more time to answer than can be reckoned with. -/
def longestWindow : Environment :=
  fun name => if name = "OFFER_WINDOW_SECS" then some "18446744073709551615" else none

/-- These settings are accepted. If the clock is set back to a second before the offer was
made, the offer is listed with the usual window, and with this one nothing is. -/
theorem longest_window_lists_nothing :
    let desk := openDesk {} ⟨19783, 35974, 500000, by decide, by decide, by decide, by decide⟩
    longestWindow.settings = .ok { offerWindow := 18446744073709551615000 } ∧
      ((desk.withWindow 25000).offersOf (.ofNat 9)).toOption.map
        (·.map (·.remainingSeconds)) = some [26] ∧
      (desk.withWindow 18446744073709551615000).offersOf (.ofNat 9) = .error .timeOutOfRange :=
  ⟨rfl, by decide +kernel, rfl⟩

end Desk

end Hailing
