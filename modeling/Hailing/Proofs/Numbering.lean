import Mathlib.Data.List.Nodup
import Hailing.Proofs.Attendance
import Hailing.Proofs.Stages

/-!
# Order numbers

Orders are numbered as they are entered, and nothing else touches the number of
the last one. As no order is taken off the record, the codes on record, in the
order in which their orders were entered, are those of one, two, three and so on
(`Numbered`). An order that is refused is not entered, and one whose dispatch
breaks down is on record all the same, so what is counted here is not the
orders that were answered but those that were not refused (`entries`).

Two numbers never have the same code. The zeros on the left of a short number
stand for nothing, and from seven digits on there are none.
-/

namespace Hailing

open Geo (Point)
open Time (Instant)

namespace Register

variable {α β : Type} {key : α → Uuid}

theorem map_replaceOrAppend_of_some {f : α → β} {a b : α} {items : List α}
    (h : items.find? (fun c => key c = key a) = some b) (hf : f a = f b) :
    (replaceOrAppend key a items).map f = items.map f := by
  induction items with
  | nil => cases h
  | cons c rest ih =>
      by_cases hc : key c = key a
      · have hcb : c = b := by simpa [List.find?_cons, hc] using h
        rw [replaceOrAppend, if_pos hc, List.map_cons, List.map_cons, hcb, hf]
      · have hrest : rest.find? (fun c => key c = key a) = some b := by
          simpa [List.find?_cons, hc] using h
        rw [replaceOrAppend, if_neg hc, List.map_cons, List.map_cons, ih hrest]

theorem replaceOrAppend_of_none {a : α} {items : List α}
    (h : items.find? (fun c => key c = key a) = none) :
    replaceOrAppend key a items = items ++ [a] := by
  induction items with
  | nil => rfl
  | cons c rest ih =>
      have hc : key c ≠ key a := by
        intro hc
        simp [hc] at h
      have hrest : rest.find? (fun c => key c = key a) = none := by
        simpa [List.find?_cons, hc] using h
      rw [replaceOrAppend, if_neg hc, ih hrest, List.cons_append]

/-- An item that is replaced by one that looks the same. -/
theorem map_put_of_some {f : α → β} {r : Register α key} {a b : α}
    (h : r.find? (key a) = some b) (hf : f a = f b) : (r.put a).items.map f = r.items.map f :=
  map_replaceOrAppend_of_some h hf

theorem items_put_of_none {r : Register α key} {a : α} (h : r.find? (key a) = none) :
    (r.put a).items = r.items ++ [a] :=
  replaceOrAppend_of_none h

end Register

/-! ## Codes -/

theorem Order.codeOf_injective : Function.Injective Order.codeOf := by
  intro a b h
  have hcode := List.append_cancel_left (String.ofList_injective h)
  exact UInt64.toNat_inj.1 (Text.padded_injective 6 hcode)

namespace Case

/-! ## Only a new order is numbered -/

theorem Dispatched.lastNumber_eq {c c' : Case} {outcome : Outcome}
    (h : Dispatched c outcome c') : c'.floor.lastNumber = c.floor.lastNumber := by
  cases h <;> rfl

theorem Resumed.lastNumber_eq {radii : Radii} {c c' : Case} (h : Resumed radii c c') :
    c'.floor.lastNumber = c.floor.lastNumber := by
  cases h <;> rfl

theorem settle_lastNumber (c : Case) : c.settle.floor.lastNumber = c.floor.lastNumber := by
  show (c.floor.settle _).lastNumber = _
  rw [Floor.settle_eq]

theorem Move.lastNumber_eq {c c' : Case} (h : Move c c') :
    c'.floor.lastNumber = c.floor.lastNumber := by
  cases h with
  | dispatched hd => exact hd.lastNumber_eq
  | excluded => rfl
  | closed => exact settle_lastNumber _
  | settled => exact settle_lastNumber c

theorem Moves.lastNumber_eq {c c' : Case} (h : Moves c c') :
    c'.floor.lastNumber = c.floor.lastNumber := by
  induction h with
  | refl => rfl
  | tail _ hm ih => exact hm.lastNumber_eq.trans ih

theorem completed_lastNumber (c : Case) :
    c.completed.floor.lastNumber = c.floor.lastNumber := by
  unfold completed
  dsimp only
  split <;> rfl

theorem releaseDriver_lastNumber (c : Case) :
    c.releaseDriver.floor.lastNumber = c.floor.lastNumber := by
  unfold releaseDriver
  split <;> rfl

theorem Decided.lastNumber_eq {c c' : Case} {cmd : Command} (h : Decided c cmd c') :
    c'.floor.lastNumber = c.floor.lastNumber := by
  cases h with
  | taken _ _ _ hc =>
      rw [Case.taken, Floor.settle_eq, (claim_eq hc).1]
      rfl
  | withdrawn => exact settle_lastNumber _
  | recalled => exact (settle_lastNumber _).trans (releaseDriver_lastNumber _)
  | completed => exact completed_lastNumber c

/-- The order goes by the same identifier and the same code. -/
structure Named (c c' : Case) : Prop where
  id : c'.docket.id = c.docket.id
  code : c'.docket.order.code = c.docket.order.code

theorem Named.of_order {c c' : Case} (h : c'.docket.order = c.docket.order) : Named c c' :=
  ⟨congrArg Order.id h, congrArg Order.code h⟩

theorem Decided.named {c c' : Case} {cmd : Command} (h : Decided c cmd c') : Named c c' := by
  refine ⟨h.id_eq, ?_⟩
  cases h with
  | taken _ _ _ hc =>
      rw [← claim_docket hc]
      rfl
  | withdrawn => rfl
  | recalled =>
      show (releaseDriver _).docket.order.code = _
      rw [releaseDriver_docket]
      rfl
  | completed => rw [completed_docket]

theorem Decides.named {α : Type} {cmd : Command} {c : Case} {result : Answer α × Case}
    (h : Decides cmd c result) : Named c result.2 := by
  rcases h with ⟨_, rfl⟩ | ⟨_, _, rfl, hc⟩
  · exact .of_order rfl
  · exact hc.named

theorem Worked.named {c c' : Case} (h : Worked c c') : Named c c' := .of_order h.moves.order_eq

theorem code_law : Law fun a b => b.order.code = a.order.code where
  refl _ := rfl
  trans h₁ h₂ := h₂.trans h₁
  moved _ hm := congrArg Order.code hm.order_eq
  decided _ hd := hd.named.code
  resumed _ hr := congrArg Order.code hr.order_eq

end Case

namespace Desk

/-! ## The codes on record -/

/-- The codes of all orders, in the order in which these were entered. -/
def codes (desk : Desk) : List String := desk.dockets.items.map (·.order.code)

/-- The code of the order that is entered after `k` others. -/
def codeAfter (k : Nat) : String := Order.codeOf (.ofNat (k + 1))

/-- As many orders are on record as were numbered, and they have their codes. -/
structure Numbered (desk : Desk) : Prop where
  lastNumber : desk.floor.lastNumber = .ofNat desk.dockets.size
  codes : desk.codes = (List.range desk.dockets.size).map codeAfter

theorem size_eq_length_codes (desk : Desk) : desk.dockets.size = desk.codes.length :=
  (List.length_map _).symm

theorem Numbered.nextCode {desk : Desk} (h : desk.Numbered) :
    desk.floor.nextCode = codeAfter desk.dockets.size := by
  rw [Floor.nextCode, h.lastNumber, codeAfter, UInt64.ofNat_add]
  rfl

theorem Numbered.congr {desk desk' : Desk} (h : desk.Numbered)
    (hc : desk'.codes = desk.codes)
    (hn : desk'.floor.lastNumber = desk.floor.lastNumber) : desk'.Numbered := by
  have hsize : desk'.dockets.size = desk.dockets.size := by
    rw [size_eq_length_codes, hc, size_eq_length_codes]
  exact ⟨by rw [hn, hsize, h.lastNumber], by rw [hc, hsize, h.codes]⟩

theorem codes_putBack {desk : Desk} {docket : Docket} {f : Floor} {c : Case}
    (hd : desk.docket? docket.id = some docket) (hn : Case.Named ⟨docket, f⟩ c) :
    (desk.putBack c).codes = desk.codes :=
  Register.map_put_of_some (hn.id ▸ hd) hn.code

/-- A new order takes the next number. -/
theorem codes_enter {desk : Desk} (request : Order.NewOrder)
    (hn : desk.docket? desk.floor.nextId = none) :
    (desk.enter (desk.draftOrder request)).codes = desk.codes ++ [desk.floor.nextCode] := by
  have hput : (desk.dockets.put (.new (desk.draftOrder request))).items =
      desk.dockets.items ++ [.new (desk.draftOrder request)] := Register.items_put_of_none hn
  show List.map _ (desk.dockets.put _).items = _
  rw [hput, List.map_append]
  rfl

theorem enter_lastNumber (order : Order) (desk : Desk) :
    (desk.enter order).floor.lastNumber = desk.floor.lastNumber + 1 := by
  show (Floor.openOrder _ _).lastNumber = _
  rw [Floor.openOrder_eq]
  rfl

theorem Numbered.enter {desk : Desk} (h : desk.Numbered) (request : Order.NewOrder)
    (hn : desk.docket? desk.floor.nextId = none) :
    (desk.enter (desk.draftOrder request)).Numbered := by
  have hcodes := codes_enter request hn
  have hsize : (desk.enter (desk.draftOrder request)).dockets.size = desk.dockets.size + 1 := by
    rw [size_eq_length_codes, hcodes, List.length_append, ← size_eq_length_codes]
    rfl
  refine ⟨?_, ?_⟩
  · rw [enter_lastNumber, hsize, h.lastNumber, UInt64.ofNat_add]
    rfl
  · rw [hcodes, hsize, h.nextCode, h.codes, List.range_succ, List.map_append]
    rfl

theorem Move.numbered {desk desk' : Desk} (h : Move desk desk')
    (hi : desk'.floor.issued ≤ Uuid.capacity) (hn : desk.Numbered) : desk'.Numbered := by
  cases h with
  | worked hd hm =>
      exact hn.congr (codes_putBack hd (.of_order hm.order_eq)) hm.lastNumber_eq
  | entered _ hunused =>
      rw [enter_issued] at hi
      exact hn.enter _ (hunused hi)
  | reported | madeAvailable | sweepCounted => exact hn.congr rfl rfl

theorem Moves.numbered {desk desk' : Desk} (h : Moves desk desk')
    (hi : desk'.floor.issued ≤ Uuid.capacity) (hn : desk.Numbered) : desk'.Numbered := by
  induction h with
  | refl => exact hn
  | tail _ hm ih => exact hm.numbered hi (ih (Nat.le_trans hm.issued_le hi))

theorem Turn.numbered {desk desk' : Desk} {cmd : Command} (h : Turn desk cmd desk')
    (hi : desk'.floor.issued ≤ Uuid.capacity) (hn : desk.Numbered) : desk'.Numbered := by
  cases h with
  | passed _ hm => exact Moves.numbered hm.moves hi hn
  | decided hd _ hc => exact hn.congr (codes_putBack hd hc.named) hc.lastNumber_eq
  | @woken place _ _ _ _ hd hr =>
      have htaken : (desk.takeSearch place).Numbered := hn.congr rfl rfl
      rw [← id_of_docket? hd] at hd
      exact htaken.congr (codes_putBack hd (.of_order hr.order_eq)) hr.lastNumber_eq
  | lost | claimed | freed | clockSet => exact hn.congr rfl rfl

/-! ## Only a request for an order enters one -/

theorem handle_codes {α : Type} {order : Uuid} {work : Case → Answer α × Case} {desk : Desk}
    (hw : ∀ docket, docket.id = order → desk.docket? docket.id = some docket →
      Case.Named ⟨docket, desk.floor⟩ (work ⟨docket, desk.floor⟩).2) :
    (desk.handle order work).2.codes = desk.codes := by
  rcases handle_cases order work desk with ⟨_, h⟩ | ⟨docket, hid, hd, h⟩
  · rw [h]
  · rw [h]
    exact codes_putBack hd (hw docket hid hd)

theorem sweepOrders_codes (visited : List Uuid) (report : SweepReport) {desk : Desk}
    (h : desk.Sound) : (sweepOrders visited report desk).2.codes = desk.codes := by
  induction visited generalizing report desk with
  | nil => rfl
  | cons order rest ih =>
      rw [sweepOrders]
      split
      · exact ih report h
      · next docket hf =>
          obtain rfl := id_of_docket? hf
          have hw := Case.sweep_worked (c := ⟨docket, desk.floor⟩) (h.orderly hf).oneOpen report
          have hstep : Move desk (desk.putBack _) := .worked hf hw.moves
          have hcodes := codes_putBack hf hw.named
          rcases hr : (Case.mk docket desk.floor).sweep report with ⟨_ | report', c⟩
          · rw [hr] at hcodes
            exact hcodes
          · rw [hr] at hcodes hstep
            exact (ih report' (hstep.sound h)).trans hcodes

/-- What a request for a new order comes to, unless it is refused. -/
def created? (desk : Desk) : Command → Option (Answer Created)
  | .create request => (some (desk.createOrder request).1).filter fun answer => !answer.isRefused
  | _ => none

theorem newCase_named (request : Order.NewOrder) (desk : Desk) :
    Case.Named (desk.newCase request) (desk.newCase request).dispatch.2 :=
  (Case.Worked.sought (Case.dispatch_sought (desk.newCase request))).named

theorem createOrder_codes {request : Order.NewOrder} {desk : Desk} (hs : desk.Sound)
    (hi : (desk.createOrder request).2.floor.issued ≤ Uuid.capacity) :
    (desk.createOrder request).2.codes =
      desk.codes ++ (desk.created? (.create request)).toList.map fun _ => desk.floor.nextCode := by
  rcases createOrder_cases request desk with ⟨refusal, h⟩ | ⟨hr, -⟩
  · rw [created?, h]
    exact (List.append_nil _).symm
  · have h := createOrder_eq hr desk
    have hfound : (desk.enter (desk.draftOrder request)).docket? (desk.newCase request).docket.id =
        some (desk.newCase request).docket := by
      rw [docket?_enter]
      exact if_pos rfl
    have hworked := Move.worked hfound (Case.dispatch_sought (desk.newCase request)).moves
    have hissued := hworked.issued_le
    rw [enter_issued] at hissued
    rw [h] at hi
    have hunused := hs.nextId_unused (Nat.le_trans hissued hi)
    have hentry : (desk.created? (.create request)).isSome = true := by
      rw [created?, h]
      simp
    obtain ⟨answer, hanswer⟩ := Option.isSome_iff_exists.1 hentry
    rw [h, hanswer]
    exact (codes_putBack hfound (newCase_named request desk)).trans (codes_enter request hunused)

/-- The order that is answered is on record, with the code that was next. -/
theorem createOrder_answered {request : Order.NewOrder} {desk : Desk} {created : Created}
    (h : (desk.createOrder request).1 = .done created) :
    created.order.code = desk.floor.nextCode ∧
      ∃ docket, (desk.createOrder request).2.docket? created.order.id = some docket ∧
        docket.order.code = desk.floor.nextCode := by
  obtain ⟨horder, -, hdesk⟩ := createOrder_done h
  have hcode : (desk.newCase request).dispatch.2.docket.order.code = desk.floor.nextCode :=
    (newCase_named request desk).code
  rw [hdesk, horder]
  refine ⟨rfl, _, ?_, hcode⟩
  rw [docket?_putBack]
  exact if_pos (newCase_id request desk)

theorem after_sweep_codes {desk : Desk} (hs : desk.Sound) (visited : List Uuid) :
    (desk.after (.sweep visited)).codes = desk.codes := by
  rw [after, perform]
  split
  · have hcount : Move desk _ := .sweepCounted
    exact sweepOrders_codes visited {} (hcount.sound hs)
  · rfl

theorem after_wake_codes (desk : Desk) (place : Nat) :
    (desk.after (.wake place)).codes = desk.codes := by
  rw [after]
  cases hf : desk.floor.sleeping[place]? with
  | none => rw [perform_wake_none hf]
  | some search =>
      rw [perform_wake hf]
      refine (handle_codes fun docket _ _ => ?_).trans rfl
      rw [freely_eq]
      rcases Case.resume_cases search.radii ⟨docket, (desk.takeSearch place).floor⟩ with
        ⟨_, hr⟩ | ⟨_, hr, hc⟩
      · rw [hr]
        exact .of_order rfl
      · rw [hr]
        exact .of_order hc.order_eq

/-- A new code for a request that is not refused, and nothing else. -/
theorem after_codes {desk : Desk} (hs : desk.Sound) (cmd : Command)
    (hi : (desk.after cmd).floor.issued ≤ Uuid.capacity) :
    (desk.after cmd).codes =
      desk.codes ++ (desk.created? cmd).toList.map fun _ => desk.floor.nextCode := by
  cases cmd with
  | create request => exact createOrder_codes hs hi
  | respond order driver reply =>
      refine (handle_codes fun docket hid hd => ?_).trans (List.append_nil _).symm
      have ho := (hs.orderly hd).oneOpen
      cases reply with
      | accept => exact (Case.accept_decides ho driver).named
      | reject => exact (Case.reject_worked ho driver).named
  | cancel order reason text =>
      refine (handle_codes fun docket _ _ => ?_).trans (List.append_nil _).symm
      exact (Case.cancel_decides reason text ⟨docket, desk.floor⟩).named
  | complete order =>
      refine (handle_codes fun docket _ _ => ?_).trans (List.append_nil _).symm
      exact (Case.complete_decides ⟨docket, desk.floor⟩).named
  | dispatch order =>
      refine (handle_codes fun docket _ _ => ?_).trans (List.append_nil _).symm
      exact (Case.Worked.sought (Case.dispatch_sought ⟨docket, desk.floor⟩)).named
  | retry order =>
      refine (handle_codes fun docket _ _ => ?_).trans (List.append_nil _).symm
      exact (Case.retry_worked ⟨docket, desk.floor⟩).named
  | reassign order driver =>
      refine (handle_codes fun docket _ _ => ?_).trans (List.append_nil _).symm
      exact (Case.reassign_worked driver ⟨docket, desk.floor⟩).named
  | report | setAvailability | claimTrip | markFree | setClock => exact (List.append_nil _).symm
  | sweep visited => exact (after_sweep_codes hs visited).trans (List.append_nil _).symm
  | wake place => exact (after_wake_codes desk place).trans (List.append_nil _).symm

/-! ## Runs -/

/-- What the requests for new orders came to that were not refused. -/
def entries : List Command → Desk → List (Answer Created)
  | [], _ => []
  | cmd :: rest, desk => (desk.created? cmd).toList ++ entries rest (desk.after cmd)

theorem entries_append (as bs : List Command) (desk : Desk) :
    desk.entries (as ++ bs) = desk.entries as ++ (desk.run as).entries bs := by
  induction as generalizing desk with
  | nil => rfl
  | cons cmd rest ih =>
      simp only [List.cons_append, entries, run, ih (desk.after cmd), List.append_assoc]

theorem entries_concat (cmds : List Command) (cmd : Command) (desk : Desk) :
    desk.entries (cmds ++ [cmd]) = desk.entries cmds ++ ((desk.run cmds).created? cmd).toList := by
  rw [entries_append, entries, entries, List.append_nil]

/-- If the answer is an order, it has the code, and it is on record with it. -/
def Answers (desk : Desk) (code : String) (answer : Answer Created) : Prop :=
  ∀ created, answer = .done created → created.order.code = code ∧
    ∃ docket, desk.docket? created.order.id = some docket ∧ docket.order.code = code

theorem answers_of_created? {desk : Desk} {cmd : Command} {answer : Answer Created}
    (h : desk.created? cmd = some answer) :
    (desk.after cmd).Answers desk.floor.nextCode answer := by
  rintro created rfl
  cases cmd with
  | create request =>
      rw [created?, Option.filter_eq_some_iff] at h
      exact createOrder_answered (Option.some.inj h.1)
  | _ => cases h

/-- Every request that was not refused has taken the next number. -/
structure Entered (opened : Desk) (cmds : List Command) (desk : Desk) : Prop where
  numbered : desk.Numbered
  length : (opened.entries cmds).length = desk.dockets.size
  answers : ∀ k answer, (opened.entries cmds)[k]? = some answer →
    desk.Answers (codeAfter k) answer

theorem run_entered {settings : Settings} {start : Instant} {cmds : List Command}
    (hi : ((opening settings start).run cmds).floor.issued ≤ Uuid.capacity) :
    Entered (opening settings start) cmds ((opening settings start).run cmds) := by
  refine run_induction (P := fun cmds desk => Entered (opening settings start) cmds desk)
    (opening_sound settings start) ?_ ?_ hi
  · exact ⟨⟨rfl, rfl⟩, rfl, fun k answer h => by cases h⟩
  · intro cmds cmd hs ht hi h
    have hcodes := after_codes hs cmd (run_concat cmds cmd _ ▸ hi)
    refine ⟨ht.numbered hi h.numbered, ?_, fun k answer hk => ?_⟩
    · rw [size_eq_length_codes, entries_concat, run_concat, hcodes, List.length_append,
        List.length_append, h.length, size_eq_length_codes, List.length_map]
    · rw [entries_concat] at hk
      rcases Nat.lt_or_ge k ((opening settings start).entries cmds).length with hlt | hge
      · rw [List.getElem?_append_left hlt] at hk
        intro created hdone
        obtain ⟨hcode, docket, hd, hdc⟩ := h.answers k answer hk created hdone
        obtain ⟨docket', hd', hsame⟩ := ht.carries Case.code_law hs hi hd
        exact ⟨hcode, docket', hd', hsame.trans hdc⟩
      · rw [List.getElem?_append_right hge] at hk
        cases hentry : ((opening settings start).run cmds).created? cmd with
        | none =>
            rw [hentry] at hk
            cases hk
        | some entry =>
            rw [hentry] at hk
            obtain ⟨hzero, rfl⟩ : k - ((opening settings start).entries cmds).length = 0 ∧
                entry = answer := by
              simpa [List.getElem?_singleton] using hk
            have hlast : k = ((opening settings start).run cmds).dockets.size := by
              rw [← h.length]
              omega
            rw [hlast, ← h.numbered.nextCode, run_concat]
            exact answers_of_created? hentry

/-- Where nothing breaks down, what is not refused is done. -/
theorem entries_done {cmds : List Command} {desk : Desk} (hw : desk.isWhole cmds = true) :
    ∀ answer ∈ desk.entries cmds, answer.isDone = true := by
  induction cmds generalizing desk with
  | nil => intro answer h; cases h
  | cons cmd rest ih =>
      rw [isWhole, Bool.and_eq_true, Bool.not_eq_true'] at hw
      intro answer h
      rw [entries, List.mem_append, Option.mem_toList] at h
      rcases h with h | h
      · cases cmd with
        | create request =>
            rw [created?, Option.filter_eq_some_iff] at h
            obtain ⟨ha, hn⟩ := h
            obtain rfl := Option.some.inj ha
            have hb := hw.1
            rw [perform] at hb
            generalize (desk.createOrder request).1 = answer at hn hb ⊢
            cases answer with
            | done => rfl
            | refused => cases hn
            | broken => cases hb
        | _ => cases h
      · exact ih hw.2 answer h

theorem codeAfter_injOn {n : Nat} (hn : n < UInt64.size) {j k : Nat} (hj : j < n) (hk : k < n)
    (h : codeAfter j = codeAfter k) : j = k := by
  have hnumber := congrArg UInt64.toNat (Order.codeOf_injective h)
  rw [UInt64.toNat_ofNat_of_lt' (Nat.lt_of_le_of_lt hj hn),
    UInt64.toNat_ofNat_of_lt' (Nat.lt_of_le_of_lt hk hn)] at hnumber
  exact Nat.succ.inj hnumber

theorem Numbered.nodup {desk : Desk} (h : desk.Numbered) (hn : desk.dockets.size < UInt64.size) :
    desk.codes.Nodup := by
  rw [h.codes]
  refine List.Nodup.map_on (fun j hj k hk => ?_) List.nodup_range
  exact codeAfter_injOn hn (List.mem_range.1 hj) (List.mem_range.1 hk)

theorem Numbered.order_eq {desk : Desk} (h : desk.Numbered) (hn : desk.dockets.size < UInt64.size)
    {order order' : Uuid} {docket docket' : Docket} (hd : desk.docket? order = some docket)
    (hd' : desk.docket? order' = some docket')
    (hcode : docket.order.code = docket'.order.code) : order = order' := by
  have hid := id_of_docket? hd
  have hid' := id_of_docket? hd'
  rw [← hid] at hd
  rw [← hid'] at hd'
  rw [← hid, ← hid']
  exact congrArg Docket.id (List.inj_on_of_nodup_map (h.nodup hn) (Register.mem_items.2 hd)
    (Register.mem_items.2 hd') hcode)

/-- After every run the codes on record, in the order in which the orders were
entered, are those of one, two, three and so on, and no two orders share one.
What is answered to the request that comes after `k` others that were not
refused, if it is an order, has the code of `k + 1`, and this order is on record
with it; where nothing breaks down these requests are those that were done. A
request that is refused takes no number and changes nothing else. An order keeps
its code to the end of the run. And no two numbers have the same code. -/
theorem order_codes_run_on (settings : Settings) (start : Instant) (cmds : List Command)
    (hi : ((opening settings start).run cmds).floor.issued ≤ Uuid.capacity)
    (hn : ((opening settings start).run cmds).dockets.size < UInt64.size) :
    let opened := opening settings start
    let desk := opened.run cmds
    desk.codes = (List.range desk.dockets.size).map codeAfter ∧
    (∀ order order' docket docket', desk.docket? order = some docket →
      desk.docket? order' = some docket' → docket.order.code = docket'.order.code →
      order = order') ∧
    (opened.entries cmds).length = desk.dockets.size ∧
    (∀ k created, (opened.entries cmds)[k]? = some (.done created) →
      created.order.code = codeAfter k ∧
      ∃ docket, desk.docket? created.order.id = some docket ∧
        docket.order.code = codeAfter k) ∧
    (opened.isWhole cmds = true → ∀ answer ∈ opened.entries cmds, answer.isDone = true) ∧
    (∀ before request rest, cmds = before ++ .create request :: rest →
      ((opened.run before).perform (.create request)).1.isRefused = true →
      (opened.run before).after (.create request) = opened.run before) ∧
    (∀ before later order docket, cmds = before ++ later →
      (opened.run before).docket? order = some docket →
      ∃ docket', desk.docket? order = some docket' ∧
        docket'.order.code = docket.order.code) ∧
    Function.Injective Order.codeOf := by
  intro opened desk
  have h := run_entered hi
  refine ⟨h.numbered.codes, fun order order' docket docket' hd hd' hcode => ?_, h.length,
    fun k created hk => ?_, entries_done, ?_, ?_, Order.codeOf_injective⟩
  · exact h.numbered.order_eq hn hd hd' hcode
  · exact h.answers k _ hk created rfl
  · intro before request rest _ hrefused
    rcases createOrder_cases request (opened.run before) with ⟨_, hc⟩ | ⟨_, _, hc⟩
    · show ((opened.run before).createOrder request).2 = _
      rw [hc]
    · change ((opened.run before).createOrder request).1.isRefused = true at hrefused
      rw [hc, Answer.isRefused_map, Answer.isRefused_ofExcept] at hrefused
      cases hrefused
  · rintro before later order docket rfl hd
    have hs := run_sound (opening_sound settings start) before
    show ∃ docket', (opened.run (before ++ later)).docket? order = some docket' ∧ _
    rw [run_append] at hi ⊢
    exact run_carries Case.code_law hs hi hd

/-- The second of three requests is refused, as it has no legs. -/
def trialNumbering : List Command :=
  [ .create trialRequest,
    .create { trialRequest with legs := [] },
    .create trialRequest ]

theorem order_codes_run_on_trial :
    ((opening {} trialStart).run trialNumbering).floor.issued ≤ Uuid.capacity ∧
      ((opening {} trialStart).run trialNumbering).dockets.size < UInt64.size ∧
      ((opening {} trialStart).run trialNumbering).codes = ["ORD-000001", "ORD-000002"] := by
  have hi : ((opening {} trialStart).run trialNumbering).floor.issued ≤ Uuid.capacity := by
    decide +kernel
  have hn : ((opening {} trialStart).run trialNumbering).dockets.size < UInt64.size := by
    decide +kernel
  have hcodes := (order_codes_run_on {} trialStart trialNumbering hi hn).1
  refine ⟨hi, hn, hcodes.trans ?_⟩
  decide +kernel

end Desk

end Hailing
