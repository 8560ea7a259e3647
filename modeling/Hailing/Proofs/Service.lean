import Hailing.Http.Service
import Hailing.Proofs.Balance
import Hailing.Proofs.Bodies
import Hailing.Proofs.Refusals

/-!
# The service adds nothing

What can be asked for under `/drivers` and `/orders` is written down once more,
by method, path and body as they stand in the request, next to the operation of
the desk that it is about (`Request.Asks`). A request that asks for an operation
is answered with what the operation answers, and leaves behind what it leaves
behind. One that asks for none leaves the desk as it is, and so does one that
is not answered with success: operations spare the desk where they refuse.

A path is taken apart at its slashes, and this loses nothing as long as no name
in it has one (`ofPath?_eq_some`). So it does not matter here whether paths are
put together or taken apart.
-/

namespace Hailing.Http

open Json (Decoder Value bind_eq_ok)
open Time (Instant)

/-! ## Paths -/

/-- The path with these names, each behind a slash. -/
def pathOf (names : List String) : String := String.join (names.map fun name => "/" ++ name)

theorem intercalate_nil_cons (names : List (List Char)) :
    ['/'].intercalate ([] :: names) = names.flatMap fun name => '/' :: name := by
  suffices h : ∀ first : List Char,
      ['/'].intercalate (first :: names) = first ++ names.flatMap fun name => '/' :: name from h []
  induction names with
  | nil => simp [List.intercalate]
  | cons name rest ih =>
      intro first
      simp [List.intercalate_cons_cons, ih]

theorem toList_pathOf (names : List String) :
    (pathOf names).toList = ['/'].intercalate ([] :: names.map String.toList) := by
  rw [intercalate_nil_cons, pathOf, String.toList_join, List.flatMap_map, List.flatMap_map]
  simp [String.toList_append]

/-- A piece between two slashes has none. -/
theorem not_mem_of_mem_splitOn {c : Char} {cs piece : List Char} (h : piece ∈ cs.splitOn c) :
    c ∉ piece := by
  unfold List.splitOn at h
  induction cs generalizing piece with
  | nil =>
      rw [List.splitOnP_nil, List.mem_singleton] at h
      rw [h]
      exact List.not_mem_nil
  | cons x rest ih =>
      rw [List.splitOnP_cons_eq_if_modifyHead] at h
      split at h
      · rcases List.mem_cons.1 h with rfl | h
        · exact List.not_mem_nil
        · exact ih h
      · next hx =>
          cases hp : rest.splitOnP (· == c) with
          | nil =>
              rw [hp] at h
              cases h
          | cons head tail =>
              rw [hp, List.modifyHead_cons] at h
              rcases List.mem_cons.1 h with rfl | h
              · intro hm
                rcases List.mem_cons.1 hm with rfl | hm
                · exact hx (beq_self_eq_true c)
                · exact ih (hp ▸ List.mem_cons_self) hm
              · exact ih (hp ▸ List.mem_cons_of_mem _ h)

namespace Route

/-- The names in the path of a route. -/
def names : Route → List String
  | .drivers => ["drivers"]
  | .driver id => ["drivers", id]
  | .position id => ["drivers", id, "location"]
  | .availability id => ["drivers", id, "availability"]
  | .offers id => ["drivers", id, "offers"]
  | .reply id name => ["drivers", id, "offers", name]
  | .orders => ["orders"]
  | .order id => ["orders", id]
  | .cancel id => ["orders", id, "cancel"]
  | .complete id => ["orders", id, "complete"]
  | .retry id => ["orders", id, "retry"]
  | .driverPosition id => ["orders", id, "driver-location"]
  | .health => ["health"]
  | .metrics => ["metrics"]
  | .feed => ["ws"]

/-- The names are found again between the slashes. -/
structure Fits (route : Route) : Prop where
  plain : ∀ name ∈ route.names, '/' ∉ name.toList
  last : route.names.getLast? ≠ some ""

theorem ofSegments?_names {route : Route} (h : route.names.getLast? ≠ some "") :
    ofSegments? ("" :: route.names) = some route := by
  cases route <;> simp [names] at h <;> simp [names, ofSegments?, h]

theorem names_of_ofSegments? {segments : List String} {route : Route}
    (h : ofSegments? segments = some route) :
    segments = "" :: route.names ∧ route.names.getLast? ≠ some "" := by
  unfold ofSegments? at h
  split at h
  case h_16 => cases h
  all_goals
    first
    | cases h
      exact ⟨rfl, by simp [names]⟩
    | split at h
      · cases h
      · next hne =>
          cases h
          exact ⟨rfl, by simpa [names] using hne⟩

theorem ofPath?_eq_some {path : String} {route : Route} :
    ofPath? path = some route ↔ path = pathOf route.names ∧ route.Fits := by
  unfold ofPath?
  constructor
  · intro h
    obtain ⟨hsegments, hlast⟩ := names_of_ofSegments? h
    have hnames : path.toList.splitOn '/' = [] :: route.names.map String.toList := by
      simpa [Function.comp_def] using congrArg (List.map String.toList) hsegments
    refine ⟨String.toList_injective ?_, fun name hn => ?_, hlast⟩
    · rw [toList_pathOf, ← hnames, List.intercalate_splitOn]
    · have hpiece : name.toList ∈ path.toList.splitOn '/' := by
        rw [hnames]
        exact List.mem_cons_of_mem _ (List.mem_map_of_mem hn)
      exact not_mem_of_mem_splitOn hpiece
  · rintro ⟨rfl, hplain, hlast⟩
    rw [toList_pathOf, List.splitOn_intercalate]
    · simpa [Function.comp_def] using ofSegments?_names hlast
    · intro piece hp
      rcases List.mem_cons.1 hp with rfl | hp
      · exact List.not_mem_nil
      · obtain ⟨name, hn, rfl⟩ := List.mem_map.1 hp
        exact hplain name hn
    · simp

end Route

/-! ## What is asked for -/

/-- A name in a path stands for an identifier. -/
structure Names (name : String) (id : Uuid) : Prop where
  plain : '/' ∉ name.toList
  decoded : (percentDecode name).bind Uuid.ofString? = some id

theorem Names.ne_empty {name : String} {id : Uuid} (h : Names name id) : name ≠ "" := by
  rintro rfl
  have hnone : (percentDecode "").bind Uuid.ofString? = none := by decide +kernel
  rw [h.decoded] at hnone
  cases hnone

/-- The text of an identifier names it. -/
theorem Names.of_toString (id : Uuid) : Names (toString id) id := by
  have hchars : (toString id).toList = id.toChars := String.toList_ofList
  have hdigits : ∀ d < 16, Text.hexDigit d ≠ '/' ∧ Text.hexDigit d ≠ '%' := by decide
  have hplain : ∀ c ∈ id.toChars, c ≠ '/' ∧ c ≠ '%' := by
    intro c hc
    rcases Uuid.mem_toChars hc with rfl | ⟨d, hd, rfl⟩
    · decide
    · exact hdigits d hd
  constructor
  · rw [hchars]
    exact fun hm => (hplain _ hm).1 rfl
  · rw [percentDecode_of_plain fun hm => (hplain _ (hchars ▸ hm)).2 rfl, Option.bind_some]
    exact id.ofString?_toString

namespace Request

/-- The request has this method, and a path of these names. -/
structure Is (r : Request) (method : String) (names : List String) : Prop where
  method : r.method = method
  path : r.target.path = pathOf names

/-- The body is said to be JSON and begins with a text for the value. -/
structure Carries {α : Type} (r : Request) (decode : Decoder α) (a : α) : Prop where
  type : ∃ name, r.contentType = some name ∧ isJsonType name = true
  body : Json.readFront decode r.body = .ok a

/-- What a command comes to for one who is told its result as a value. -/
def performed (cmd : Command) (toValue : cmd.Result → Value) (desk : Desk) :
    Answer Value × Desk :=
  ((desk.perform cmd).1.map toValue, desk.after cmd)

/-- What requests for drivers and orders are about, and what is to become of
them: an answer and the desk that is left. All drivers are listed, each once; in which
order is left open, and here it is that of their identifiers. -/
inductive Asks (r : Request) (desk : Desk) : Answer Value × Desk → Prop
  | drivers {found : List Driver} (hr : r.Is "GET" ["drivers"])
      (hall : found.Perm desk.floor.fleet.items)
      (hsorted : found.Pairwise fun a b => a.id ≤ b.id) :
      r.Asks desk (.done (.list (found.map Told.driver)), desk)
  | driver {name : String} {id : Uuid} {found : Driver} (hr : r.Is "GET" ["drivers", name])
      (hn : Names name id) (hfound : desk.floor.fleet.find? id = some found) :
      r.Asks desk (.done (Told.driver found), desk)
  | noDriver {name : String} {id : Uuid} (hr : r.Is "GET" ["drivers", name])
      (hn : Names name id) (hnone : desk.floor.fleet.find? id = none) :
      r.Asks desk (.refused (.unknownDriver id), desk)
  | report {name : String} {id : Uuid} {report : Driver.Report}
      (hr : r.Is "PUT" ["drivers", name, "location"]) (hn : Names name id)
      (hb : r.Carries Driver.Report.decoder report) :
      r.Asks desk (performed
        (.report id ⟨report.lat, report.lng⟩ (report.stamp.getD desk.now)) Told.reported desk)
  | availability {name : String} {id : Uuid} {availability : Driver.Availability}
      (hr : r.Is "PATCH" ["drivers", name, "availability"]) (hn : Names name id)
      (hb : r.Carries Driver.Availability.decoder availability) :
      r.Asks desk (performed
        (.setAvailability id availability.online availability.maxPickup) Told.driver desk)
  | offers {name : String} {id : Uuid} (hr : r.Is "GET" ["drivers", name, "offers"])
      (hn : Names name id) :
      r.Asks desk ((Answer.ofExcept (desk.offersOf id)).map fun views =>
        .list (views.map Told.view), desk)
  | respond {driverName orderName : String} {driver order : Uuid} {response : Offer.Response}
      (hr : r.Is "POST" ["drivers", driverName, "offers", orderName])
      (hd : Names driverName driver) (ho : Names orderName order)
      (hb : r.Carries Offer.Response.decoder response) :
      r.Asks desk (performed (.respond order driver response.reply) Told.reaction desk)
  | create {request : Order.NewOrder} (hr : r.Is "POST" ["orders"])
      (hb : r.Carries Order.NewOrder.decoder request) :
      r.Asks desk (performed (.create request) Told.created desk)
  | order {name : String} {id : Uuid} {docket : Docket} (hr : r.Is "GET" ["orders", name])
      (hn : Names name id) (hfound : desk.docket? id = some docket) :
      r.Asks desk (.done (Told.details docket), desk)
  | noOrder {name : String} {id : Uuid} (hr : r.Is "GET" ["orders", name])
      (hn : Names name id) (hnone : desk.docket? id = none) :
      r.Asks desk (.refused (.unknownOrder id), desk)
  | cancel {name : String} {id : Uuid} {withdrawal : Order.Withdrawal}
      (hr : r.Is "POST" ["orders", name, "cancel"]) (hn : Names name id)
      (hb : r.Carries Order.Withdrawal.decoder withdrawal) :
      r.Asks desk (performed
        (.cancel id withdrawal.reason withdrawal.otherReason) Told.order desk)
  | complete {name : String} {id : Uuid} (hr : r.Is "POST" ["orders", name, "complete"])
      (hn : Names name id) :
      r.Asks desk (performed (.complete id) Told.order desk)
  | retry {name : String} {id : Uuid} (hr : r.Is "POST" ["orders", name, "retry"])
      (hn : Names name id) :
      r.Asks desk (performed (.retry id) Told.outcome desk)
  | driverPosition {name : String} {id : Uuid}
      (hr : r.Is "GET" ["orders", name, "driver-location"]) (hn : Names name id) :
      r.Asks desk ((desk.driverPosition id).map Told.position, desk)

end Request

/-- The response to an answer: the value, or the message of the refusal. -/
def Response.telling : Answer Value → Except Breakdown Response
  | .done value => .ok ⟨200, some "application/json", some (.value value)⟩
  | .refused refusal =>
    let status := match refusal.kind with
      | .validation => 400
      | .notFound => 404
      | .conflict => 409
      | .internal => 500
    .ok ⟨status, some "application/json",
      some (.value (.record [("error", .text refusal.message)]))⟩
  | .broken breakdown => .error breakdown

theorem Response.ofAnswer_map {α : Type} (toValue : α → Value) (answer : Answer α) :
    ofAnswer (answer.map fun a => .value (toValue a)) = telling (answer.map toValue) := by
  cases answer with
  | done | broken => rfl
  | refused refusal =>
      show ofAnswer (.refused refusal) = telling (.refused refusal)
      unfold ofAnswer telling ofRefusal
      cases refusal.kind <;> rfl

namespace Request

theorem identifier_eq_ok {name : String} {id : Uuid} :
    identifier name = .ok id ↔ (percentDecode name).bind Uuid.ofString? = some id := by
  unfold identifier
  cases (percentDecode name).bind Uuid.ofString? <;> simp

theorem json_eq_ok {α : Type} {r : Request} {decode : Decoder α} {a : α} :
    r.json decode = .ok a ↔ r.Carries decode a := by
  unfold json
  constructor
  · intro h
    split at h
    · next ht =>
        cases hc : r.contentType with
        | none => simp [hc] at ht
        | some name =>
            refine ⟨⟨name, hc, by simpa [hc] using ht⟩, ?_⟩
            split at h <;> cases h
            assumption
    · cases h
  · rintro ⟨⟨name, hc, ht⟩, hb⟩
    simp [hc, ht, hb]

/-! ## What is asked for is done -/

variable {r : Request} {desk : Desk}

theorem handle_eq {route : Route} {call : Call} (hp : Route.ofPath? r.target.path = some route)
    (hm : r.method = route.method) (hc : r.call route = .ok call) :
    r.handle desk = (Response.ofAnswer (call.run desk).1, (call.run desk).2) := by
  have hoptions : r.method ≠ "OPTIONS" := by rw [hm]; cases route <;> simp [Route.method]
  have hhead : r.method ≠ "HEAD" := by rw [hm]; cases route <;> simp [Route.method]
  have hallows : route.allows r.method = true := by simp [Route.allows, hm]
  simp only [handle, serve, if_neg hoptions, if_neg hhead, if_pos hallows, hp, hc]

/-- An operation that is done under a route, with its result told as a value. -/
theorem handle_of_call {α : Type} {answer : Answer α} {toValue : α → Value} {left : Desk}
    (route : Route) (call : Call) (hr : r.Is route.method route.names) (hf : route.Fits)
    (hc : r.call route = .ok call)
    (hrun : call.run desk = (answer.map fun a => .value (toValue a), left)) :
    r.handle desk = (Response.telling (answer.map toValue), left) := by
  rw [handle_eq (Route.ofPath?_eq_some.2 ⟨hr.path, hf⟩) hr.method hc, hrun,
    Response.ofAnswer_map]

/-- All drivers in the order of their identifiers. -/
theorem eq_driversById {found : List Driver} (hall : found.Perm desk.floor.fleet.items)
    (hsorted : found.Pairwise fun a b => a.id ≤ b.id) : found = desk.driversById := by
  have hperm : desk.driversById.Perm desk.floor.fleet.items := List.mergeSort_perm _ _
  have hdrivers : desk.driversById.Pairwise fun a b => a.id ≤ b.id := by
    refine (List.pairwise_mergeSort (fun a b c hab hbc => ?_) (fun a b => ?_) _).imp
      of_decide_eq_true
    · exact decide_eq_true (Nat.le_trans (of_decide_eq_true hab) (of_decide_eq_true hbc))
    · exact Bool.or_eq_true_iff.2 ((Nat.le_total _ _).imp decide_eq_true decide_eq_true)
  -- Of two drivers neither of whom may stand first both are the same.
  refine List.Perm.eq_of_pairwise (fun a b ha hb hab hba => ?_) hsorted hdrivers
    (hall.trans hperm.symm)
  have hid : a.id = b.id := Uuid.toNat_injective (Nat.le_antisymm hab hba)
  have hfound := Register.mem_items.1 (hall.mem_iff.1 ha)
  rw [hid, Register.mem_items.1 (hperm.mem_iff.1 hb)] at hfound
  exact (Option.some.inj hfound).symm

theorem getDriver_told {id : Uuid} {found? : Option Driver}
    (hf : desk.floor.fleet.find? id = found?) :
    (desk.getDriver id).map Driver.toValue =
      (found?.map fun d => Answer.done (Told.driver d)).getD (.refused (.unknownDriver id)) := by
  rw [Desk.getDriver, hf, Told.driver_eq]
  cases found? <;> rfl

theorem getOrder_told {id : Uuid} {docket? : Option Docket} (hd : desk.docket? id = docket?) :
    (desk.getOrder id).map Desk.Details.toValue =
      (docket?.map fun d => Answer.done (Told.details d)).getD (.refused (.unknownOrder id)) := by
  rw [Desk.getOrder, hd]
  cases docket? with
  | none => rfl
  | some docket => exact congrArg Answer.done (Told.details_eq docket).symm

/-- What is known of a driver or of an order is told as it is found. -/
theorem handle_driver {name : String} {id : Uuid} (hr : r.Is "GET" ["drivers", name])
    (hn : Names name id) :
    r.handle desk = (Response.telling ((desk.getDriver id).map Driver.toValue), desk) := by
  refine handle_of_call (.driver name) (.driver id) hr
    ⟨by simp [Route.names, hn.plain], by simp [Route.names, hn.ne_empty]⟩ ?_ rfl
  simp only [call, identifier_eq_ok.2 hn.decoded]
  rfl

theorem handle_order {name : String} {id : Uuid} (hr : r.Is "GET" ["orders", name])
    (hn : Names name id) :
    r.handle desk = (Response.telling ((desk.getOrder id).map Desk.Details.toValue), desk) := by
  refine handle_of_call (.order name) (.order id) hr
    ⟨by simp [Route.names, hn.plain], by simp [Route.names, hn.ne_empty]⟩ ?_ rfl
  simp only [call, identifier_eq_ok.2 hn.decoded]
  rfl

theorem Asks.handled {result : Answer Value × Desk} (h : r.Asks desk result) :
    r.handle desk = (Response.telling result.1, result.2) := by
  cases h with
  | drivers hr hall hsorted =>
      rw [eq_driversById hall hsorted, Told.driver_eq]
      exact handle_of_call .drivers .drivers hr ⟨by simp [Route.names], by simp [Route.names]⟩
        rfl rfl
  | driver hr hn hf | noDriver hr hn hf =>
      rw [handle_driver hr hn, getDriver_told hf]
      rfl
  | @report name id report hr hn hb =>
      rw [Told.reported_eq]
      refine handle_of_call (.position name) (.report id report) hr
        ⟨by simp [Route.names, hn.plain], by simp [Route.names]⟩ ?_ rfl
      simp only [call, identifier_eq_ok.2 hn.decoded, json_eq_ok.2 hb]
      rfl
  | @availability name id availability hr hn hb =>
      rw [Told.driver_eq]
      refine handle_of_call (.availability name) (.availability id availability) hr
        ⟨by simp [Route.names, hn.plain], by simp [Route.names]⟩ ?_ rfl
      simp only [call, identifier_eq_ok.2 hn.decoded, json_eq_ok.2 hb]
      rfl
  | @offers name id hr hn =>
      rw [Told.view_eq]
      refine handle_of_call (.offers name) (.offers id) hr
        ⟨by simp [Route.names, hn.plain], by simp [Route.names]⟩ ?_ rfl
      simp only [call, identifier_eq_ok.2 hn.decoded]
      rfl
  | @respond driverName orderName driver order response hr hd ho hb =>
      rw [Told.reaction_eq]
      refine handle_of_call (.reply driverName orderName) (.respond driver order response.reply) hr
        ⟨by simp [Route.names, hd.plain, ho.plain], by simp [Route.names, ho.ne_empty]⟩ ?_ rfl
      simp only [call, identifier_eq_ok.2 hd.decoded, identifier_eq_ok.2 ho.decoded,
        json_eq_ok.2 hb]
      rfl
  | @create request hr hb =>
      rw [Told.created_eq]
      refine handle_of_call .orders (.createOrder request) hr
        ⟨by simp [Route.names], by simp [Route.names]⟩ ?_ rfl
      simp only [call, json_eq_ok.2 hb]
      rfl
  | order hr hn hd | noOrder hr hn hd =>
      rw [handle_order hr hn, getOrder_told hd]
      rfl
  | @cancel name id withdrawal hr hn hb =>
      rw [Told.order_eq]
      refine handle_of_call (.cancel name) (.cancel id withdrawal) hr
        ⟨by simp [Route.names, hn.plain], by simp [Route.names]⟩ ?_ rfl
      simp only [call, identifier_eq_ok.2 hn.decoded, json_eq_ok.2 hb]
      rfl
  | @complete name id hr hn =>
      rw [Told.order_eq]
      refine handle_of_call (.complete name) (.complete id) hr
        ⟨by simp [Route.names, hn.plain], by simp [Route.names]⟩ ?_ rfl
      simp only [call, identifier_eq_ok.2 hn.decoded]
      rfl
  | @retry name id hr hn =>
      rw [Told.outcome_eq]
      refine handle_of_call (.retry name) (.retry id) hr
        ⟨by simp [Route.names, hn.plain], by simp [Route.names]⟩ ?_ rfl
      simp only [call, identifier_eq_ok.2 hn.decoded]
      rfl
  | @driverPosition name id hr hn =>
      rw [Told.position_eq]
      refine handle_of_call (.driverPosition name) (.driverPosition id) hr
        ⟨by simp [Route.names, hn.plain], by simp [Route.names]⟩ ?_ rfl
      simp only [call, identifier_eq_ok.2 hn.decoded]
      rfl

/-! ## Whatever else is asked for changes nothing -/

/-- What can be got only looks at the desk. -/
theorem call_looks {route : Route} {call : Call} (hg : route.method = "GET")
    (hc : r.call route = .ok call) : (call.run desk).2 = desk := by
  cases route with
  | position | availability | reply | orders | cancel | complete | retry =>
      simp [Route.method] at hg
  | drivers | health | metrics =>
      cases hc
      rfl
  | driver | offers | order | driverPosition =>
      obtain ⟨id, -, h⟩ := bind_eq_ok.1 hc
      cases h
      rfl
  | feed => cases hc

/-- A request that is understood asks for an operation, or only looks. -/
theorem asks_of_call {route : Route} {call : Call}
    (hp : Route.ofPath? r.target.path = some route) (hm : r.method = route.method)
    (hc : r.call route = .ok call) :
    (∃ result, r.Asks desk result) ∨ (call.run desk).2 = desk := by
  obtain ⟨hpath, hfits⟩ := Route.ofPath?_eq_some.1 hp
  have hr : r.Is route.method route.names := ⟨hm, hpath⟩
  have hplain := hfits.plain
  cases route with
  | drivers | driver | offers | order | driverPosition | health | metrics | feed =>
      exact .inr (call_looks rfl hc)
  | position name =>
      obtain ⟨id, hid, h⟩ := bind_eq_ok.1 hc
      obtain ⟨report, hb, -⟩ := bind_eq_ok.1 h
      exact .inl ⟨_, .report hr ⟨hplain name (by simp [Route.names]), identifier_eq_ok.1 hid⟩
        (json_eq_ok.1 hb)⟩
  | availability name =>
      obtain ⟨id, hid, h⟩ := bind_eq_ok.1 hc
      obtain ⟨availability, hb, -⟩ := bind_eq_ok.1 h
      exact .inl ⟨_, .availability hr
        ⟨hplain name (by simp [Route.names]), identifier_eq_ok.1 hid⟩ (json_eq_ok.1 hb)⟩
  | reply driverName orderName =>
      obtain ⟨driver, hd, h⟩ := bind_eq_ok.1 hc
      obtain ⟨order, ho, h⟩ := bind_eq_ok.1 h
      obtain ⟨response, hb, -⟩ := bind_eq_ok.1 h
      exact .inl ⟨_, .respond hr
        ⟨hplain driverName (by simp [Route.names]), identifier_eq_ok.1 hd⟩
        ⟨hplain orderName (by simp [Route.names]), identifier_eq_ok.1 ho⟩ (json_eq_ok.1 hb)⟩
  | orders =>
      obtain ⟨request, hb, -⟩ := bind_eq_ok.1 hc
      exact .inl ⟨_, .create hr (json_eq_ok.1 hb)⟩
  | cancel name =>
      obtain ⟨id, hid, h⟩ := bind_eq_ok.1 hc
      obtain ⟨withdrawal, hb, -⟩ := bind_eq_ok.1 h
      exact .inl ⟨_, .cancel hr ⟨hplain name (by simp [Route.names]), identifier_eq_ok.1 hid⟩
        (json_eq_ok.1 hb)⟩
  | complete name =>
      obtain ⟨id, hid, -⟩ := bind_eq_ok.1 hc
      exact .inl ⟨_, .complete hr ⟨hplain name (by simp [Route.names]), identifier_eq_ok.1 hid⟩⟩
  | retry name =>
      obtain ⟨id, hid, -⟩ := bind_eq_ok.1 hc
      exact .inl ⟨_, .retry hr ⟨hplain name (by simp [Route.names]), identifier_eq_ok.1 hid⟩⟩

/-- A request that leaves a trace is understood, and not answered without its
body. -/
theorem handle_cases (r : Request) (desk : Desk) :
    (r.handle desk).2 = desk ∨
      ∃ route call, Route.ofPath? r.target.path = some route ∧ r.method = route.method ∧
        r.call route = .ok call := by
  unfold handle serve
  split
  · exact .inl rfl
  · split
    · exact .inl rfl
    · next route hp =>
        split
        · next ha =>
            dsimp only
            split
            · exact .inl rfl
            · next call hc =>
                rw [Route.allows, Bool.or_eq_true, Bool.and_eq_true] at ha
                rcases ha with hm | ⟨-, hg⟩
                · exact .inr ⟨route, call, hp, of_decide_eq_true hm, hc⟩
                · exact .inl (call_looks (of_decide_eq_true hg) hc)
        · exact .inl rfl

theorem handle_get (hg : r.method = "GET") : (r.handle desk).2 = desk := by
  rcases handle_cases r desk with h | ⟨route, call, hp, hm, hc⟩
  · exact h
  · rw [handle_eq hp hm hc]
    exact call_looks (hm.symm.trans hg) hc

theorem handle_of_not_asks (h : ∀ result, ¬ r.Asks desk result) : (r.handle desk).2 = desk := by
  rcases handle_cases r desk with h' | ⟨route, call, hp, hm, hc⟩
  · exact h'
  · rw [handle_eq hp hm hc]
    rcases asks_of_call hp hm hc with ⟨result, ha⟩ | hl
    · exact absurd ha (h result)
    · exact hl

theorem handle_spares (hs : desk.Sound) {response : Response}
    (h : (r.handle desk).1 = .ok response) (hfail : response.status / 100 ≠ 2) :
    (r.handle desk).2 = desk := by
  rcases handle_cases r desk with h' | ⟨route, call, hp, hm, hc⟩
  · exact h'
  · rw [handle_eq hp hm hc] at h ⊢
    refine Desk.call_spares hs call ?_
    cases ha : (call.run desk).1 with
    | done content =>
        rw [ha] at h
        cases h
        have hdone : (Response.ofContent content).status = 200 := by cases content <;> rfl
        exact absurd (by rw [hdone]) hfail
    | refused => rfl
    | broken => rw [ha] at h; cases h

theorem handle_health (hb : desk.Balanced) (hr : r.Is "GET" ["health"]) :
    r.handle desk =
      (.ok ⟨200, some "application/json", some (.value (.record
        [ ("status", .text "ok"),
          ("drivers", .whole desk.floor.fleet.items.length),
          ("orders", .whole desk.dockets.items.length),
          ("orders_pending", .whole (desk.dockets.items.countP (·.isPending))) ]))⟩, desk) := by
  have hp : Route.ofPath? r.target.path = some .health :=
    Route.ofPath?_eq_some.2 ⟨hr.path, by simp [Route.names], by simp [Route.names]⟩
  rw [handle_eq hp hr.method rfl, ← hb.pending_eq]
  rfl

/-- The request comes with this value as its body. -/
structure Sends (r : Request) (v : Value) : Prop where
  type : r.contentType = some "application/json"
  body : r.body = v.print

/-- All that can be put for what is asked carries it. -/
theorem Sends.carries {α : Type} {decode : Decoder α} {a : α} {v : Value} (h : r.Sends v)
    (hb : Body decode a v) (hl : ∀ x ∈ v.reals, Json.ReadsBack x) : r.Carries decode a :=
  ⟨⟨_, h.type, by decide +kernel⟩, h.body ▸ hb.reads.readFront_print (by decide) hl⟩

/-- After every run, a request for drivers or orders is answered with what the
operation of the desk that it asks for answers, told as `Told` has it, and leaves
behind what this leaves behind. An identifier can be named by its text, and what is
asked can be put in any of the bodies that stand for it, if each double in them is
read back. What asks for none of the operations, what is only to be got and what is
not answered with success leaves the desk as it was. The health of the desk is told
in the numbers of drivers, orders and pending orders on record. -/
theorem service_adds_nothing (settings : Settings) (start : Instant) (cmds : List Command)
    (r : Request) :
    let desk := (Desk.opening settings start).run cmds
    (∀ result, r.Asks desk result →
      r.handle desk = (Response.telling result.1, result.2)) ∧
    (∀ id : Uuid, Names (toString id) id) ∧
    (∀ (α : Type) (decode : Decoder α) (a : α) (v : Value), Body decode a v →
      (∀ x ∈ v.reals, Json.ReadsBack x) → r.Sends v → r.Carries decode a) ∧
    ((∀ result, ¬ r.Asks desk result) → (r.handle desk).2 = desk) ∧
    (r.method = "GET" → (r.handle desk).2 = desk) ∧
    (∀ response, (r.handle desk).1 = .ok response → response.status / 100 ≠ 2 →
      (r.handle desk).2 = desk) ∧
    (desk.floor.issued ≤ Uuid.capacity → r.Is "GET" ["health"] →
      r.handle desk =
        (.ok ⟨200, some "application/json", some (.value (.record
          [ ("status", .text "ok"),
            ("drivers", .whole desk.floor.fleet.items.length),
            ("orders", .whole desk.dockets.items.length),
            ("orders_pending", .whole (desk.dockets.items.countP (·.isPending))) ]))⟩,
          desk)) := by
  intro desk
  have hs : desk.Sound := Desk.run_sound (Desk.opening_sound settings start) cmds
  exact ⟨fun _ => Asks.handled, Names.of_toString, fun _ _ _ _ hb hl hv => hv.carries hb hl,
    handle_of_not_asks, handle_get, fun _ => handle_spares hs,
    fun hi => handle_health (Desk.run_balanced hi)⟩

/-- A driver reports where they are, as of now, and rejects an offer of an order that
nobody knows. -/
theorem service_adds_nothing_trial :
    let desk := Desk.opening {} Desk.trialStart
    let driver : Uuid := .ofNat 9
    let report : Request :=
      { method := "PUT"
        target := ⟨pathOf ["drivers", toString driver, "location"], ""⟩
        contentType := some "application/json"
        body := (Value.record [("lng", .real 69.24), ("lat", .real 41.3)]).print }
    let rejection : Request :=
      { method := "POST"
        target := ⟨pathOf ["drivers", toString driver, "offers", toString Desk.trialOrder], ""⟩
        contentType := some "application/json"
        body := (Value.record [("action", .text "reject")]).print }
    (report.handle desk).1 =
        .ok ⟨200, some "application/json", some (.value (.record
          [ ("result", .text "applied"),
            ("driver", .record
              [ ("id", .text (toString driver)),
                ("online", .bool true),
                ("max_pickup_km", .null),
                ("location", .record
                  [ ("point", .record [("lat", .real 41.3), ("lng", .real 69.24)]),
                    ("updated_at", .text "2024-03-01T10:00:00Z") ]),
                ("active_trips", .list []) ]) ]))⟩ ∧
      rejection.handle desk =
        (.ok ⟨404, some "application/json", some (.value (.record [("error", .text
          (Refusal.unknownOrder Desk.trialOrder).message)]))⟩, desk) := by
  intro desk driver report rejection
  obtain ⟨hreport, hnames, hbody, -⟩ := service_adds_nothing {} Desk.trialStart [] report
  obtain ⟨hrejection, -, hbody', -⟩ := service_adds_nothing {} Desk.trialStart [] rejection
  constructor
  · have hcarries := hbody _ _ (Driver.Report.mk 41.3 69.24 none) _
      (.report .missing (.swap _ _ _)) (by decide +kernel) ⟨rfl, rfl⟩
    exact congrArg Prod.fst (hreport _ (.report ⟨rfl, rfl⟩ (hnames driver) hcarries))
  · have hcarries := hbody' _ _ _ _ .reject (by decide +kernel) ⟨rfl, rfl⟩
    exact hrejection _ (.respond ⟨rfl, rfl⟩ (hnames driver) (hnames Desk.trialOrder) hcarries)

end Request

end Hailing.Http
