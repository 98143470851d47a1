import StoreMarkup.Service.Respond

/-! What the endpoints answer to JSON of any shape: which data they refuse, which trees are too
deep, and what all other data get. -/
namespace StoreMarkup.Service

/-- The name that data give to a template, which they may leave out. -/
inductive NamesSource (v : Json) : Option String → Prop
  | missing : v.get? "source_name" = none → NamesSource v none
  | null : v.get? "source_name" = some .null → NamesSource v none
  | given {name : String} : v.get? "source_name" = some (.string name) → NamesSource v (some name)

/-- Whether data ask for places, which they do unless they say otherwise. -/
inductive AsksForSpans (v : Json) : Bool → Prop
  | missing : v.get? "include_spans" = none → AsksForSpans v true
  | given {spans : Bool} : v.get? "include_spans" = some (.bool spans) → AsksForSpans v spans

/-- What an endpoint makes of data that it does not refuse. -/
structure Understands (e : Endpoint) (v : Json) (s : Submission) (spans : Bool) : Prop where
  content : v.get? "template_content" = some (.string (.ofList s.content))
  name : NamesSource v s.sourceName
  spans : e = .parse → AsksForSpans v spans

section Data

variable {e : Endpoint} {v w : Json} {s : Submission} {spans : Bool}

theorem content?_eq_ok {t : Text} :
    Submission.content? v = .ok t ↔ v.get? "template_content" = some (.string (.ofList t)) := by
  unfold Submission.content?
  constructor
  · intro h
    split at h
    · cases h
    · cases h
    · rename_i content hv
      cases h
      rw [hv, String.ofList_toList]
    · cases h
  · intro h
    simp [h]

theorem sourceName?_eq_ok {name : Option String} :
    Submission.sourceName? v = .ok name ↔ NamesSource v name := by
  unfold Submission.sourceName?
  constructor
  · intro h
    split at h
    · cases h
      exact .missing ‹_›
    · cases h
      exact .null ‹_›
    · cases h
      exact .given ‹_›
    · cases h
  · intro h
    cases h with
    | missing h | null h | given h => simp [h]

theorem spans?_eq_ok : spans? v = .ok spans ↔ AsksForSpans v spans := by
  unfold spans?
  constructor
  · intro h
    split at h
    · cases h
      exact .missing ‹_›
    · cases h
      exact .given ‹_›
    · cases h
  · intro h
    cases h with
    | missing h | given h => simp [h]

theorem ofJson_eq_ok : Submission.ofJson v = .ok s ↔
    v.get? "template_content" = some (.string (.ofList s.content)) ∧
      NamesSource v s.sourceName := by
  rw [← content?_eq_ok, ← sourceName?_eq_ok, Submission.ofJson]
  cases Submission.content? v with
  | error r => simp [bind, Except.bind]
  | ok content =>
    cases Submission.sourceName? v with
    | error r => simp [bind, Except.bind]
    | ok name =>
      obtain ⟨c, n⟩ := s
      simp [bind, Except.bind, pure, Except.pure]

theorem understands_iff : Understands e v s spans ↔
    Submission.ofJson v = .ok s ∧ (e = .parse → spans? v = .ok spans) := by
  rw [ofJson_eq_ok, spans?_eq_ok]
  constructor
  · rintro ⟨hcontent, hname, hspans⟩
    exact ⟨⟨hcontent, hname⟩, hspans⟩
  · rintro ⟨⟨hcontent, hname⟩, hspans⟩
    exact ⟨hcontent, hname, hspans⟩

/-- The fields are all that an endpoint looks at. -/
theorem Understands.congr (h : ∀ key, v.get? key = w.get? key) (hv : Understands e v s spans) :
    Understands e w s spans := by
  rw [understands_iff] at hv ⊢
  simpa only [Submission.ofJson, Submission.content?, Submission.sourceName?, spans?, h] using hv

end Data

/-- Whether a document is nested deeper than an endpoint exports it. -/
def TooDeep (e : Endpoint) (limit : Option Int) (doc : Document) : Prop :=
  e = .parse ∧ ∃ n ∈ limit, n < (doc.maxDepth : Int)

/-- What an endpoint shows of a document. -/
def Endpoint.view (outline : Option Int) (spans : Bool) (doc : Document) : Endpoint → Json
  | validate => (Report.ofDocument outline doc).toJson true
  | parse => doc.toJson spans

/-- How an endpoint answers data: it refuses what it does not understand, and exports nothing that
is too deep. -/
structure Answers (c : Configuration) (e : Endpoint) (outline deepest : Option Int) (v : Json)
    (response : Response) : Prop where
  refused : response.status = 400 ↔ ∀ s spans, ¬ Understands e v s spans
  tooDeep : ∀ s spans, Understands e v s spans →
    (response.status = 422 ↔ TooDeep e deepest (s.document c.dialect))
  shown : ∀ s spans, Understands e v s spans → ¬ TooDeep e deepest (s.document c.dialect) →
    response = ⟨200, some (e.view outline spans (s.document c.dialect))⟩
  noFault : response.status ≠ 500

section Answer

variable {c : Configuration} {e : Endpoint} {outline deepest : Option Int} {v w : Json}
  {response : Response} {s : Submission} {spans : Bool}

theorem answers_refusal (r : Refusal) (h : ∀ s spans, ¬ Understands e v s spans) :
    Answers c e outline deepest v (.refusal r) where
  refused := ⟨fun _ => h, fun _ => rfl⟩
  tooDeep s spans hu := (h s spans hu).elim
  shown s spans hu := (h s spans hu).elim
  noFault := by simp [Response.refusal, Response.error]

theorem Understands.submission_eq {s' : Submission} {spans' : Bool} (h : Understands e v s spans)
    (h' : Understands e v s' spans') : s' = s := by
  have hs := (understands_iff.mp h).1
  have hs' := (understands_iff.mp h').1
  exact Except.ok.inj (hs'.symm.trans hs)

/-- Data are understood in one way, up to places that are not shown. -/
theorem Understands.view_eq {s' : Submission} {spans' : Bool} (h : Understands e v s spans)
    (h' : Understands e v s' spans') (outline : Option Int) (doc : Document) :
    e.view outline spans' doc = e.view outline spans doc := by
  cases e with
  | validate => rfl
  | parse =>
    have hspans := (understands_iff.mp h).2 rfl
    have hspans' := (understands_iff.mp h').2 rfl
    rw [Except.ok.inj (hspans'.symm.trans hspans)]

theorem answers_tooDeep (h : Understands e v s spans)
    (hdeep : TooDeep e deepest (s.document c.dialect)) (hstatus : response.status = 422) :
    Answers c e outline deepest v response where
  refused := by
    constructor
    · intro h400
      omega
    · intro hnone
      exact (hnone s spans h).elim
  tooDeep s' spans' h' := by
    obtain rfl := h.submission_eq h'
    exact ⟨fun _ => hdeep, fun _ => hstatus⟩
  shown s' spans' h' hshallow := by
    obtain rfl := h.submission_eq h'
    exact (hshallow hdeep).elim
  noFault := by omega

theorem answers_shown (h : Understands e v s spans)
    (hshallow : ¬ TooDeep e deepest (s.document c.dialect))
    (hresponse : response = ⟨200, some (e.view outline spans (s.document c.dialect))⟩) :
    Answers c e outline deepest v response where
  refused := by
    subst hresponse
    constructor
    · intro h400
      cases h400
    · intro hnone
      exact (hnone s spans h).elim
  tooDeep s' spans' h' := by
    subst hresponse
    obtain rfl := h.submission_eq h'
    constructor
    · intro h422
      cases h422
    · intro hdeep
      exact (hshallow hdeep).elim
  shown s' spans' h' _ := by
    obtain rfl := h.submission_eq h'
    rw [hresponse, h.view_eq h']
  noFault := by simp [hresponse]

/-- Data with the same fields get the same answer. -/
theorem Answers.congr (h : ∀ key, v.get? key = w.get? key)
    (ha : Answers c e outline deepest v response) : Answers c e outline deepest w response where
  refused := by
    rw [ha.refused]
    constructor
    · intro hnone s spans hu
      exact hnone s spans (hu.congr fun key => (h key).symm)
    · intro hnone s spans hu
      exact hnone s spans (hu.congr h)
  tooDeep s spans hu := ha.tooDeep s spans (hu.congr fun key => (h key).symm)
  shown s spans hu := ha.shown s spans (hu.congr fun key => (h key).symm)
  noFault := ha.noFault

theorem reportResponse_eq {limit : Limit} (h : limit.bound = .ok outline) (doc : Document) :
    reportResponse limit doc = ⟨200, some (Endpoint.validate.view outline spans doc)⟩ := by
  simp [reportResponse, h, Endpoint.view]

theorem treeResponse_of_tooDeep {limit : Limit} {doc : Document} (h : limit.bound = .ok deepest)
    (hdeep : TooDeep .parse deepest doc) : (treeResponse limit spans doc).status = 422 := by
  obtain ⟨-, n, rfl, hn⟩ := hdeep
  simp [treeResponse, h, hn, Response.error]

theorem treeResponse_of_not_tooDeep {limit : Limit} {doc : Document} (h : limit.bound = .ok deepest)
    (hshallow : ¬ TooDeep .parse deepest doc) :
    treeResponse limit spans doc = ⟨200, some (Endpoint.parse.view outline spans doc)⟩ := by
  cases deepest with
  | none => simp [treeResponse, h, Endpoint.view]
  | some n =>
    have hn : ¬ n < (doc.maxDepth : Int) := by
      intro hlt
      exact hshallow ⟨rfl, n, rfl, hlt⟩
    simp [treeResponse, h, hn, Endpoint.view]

/-- An endpoint with limits that numbers can be compared with answers all data. -/
theorem answers_answer (houtline : c.outlineLimit.bound = .ok outline)
    (hdeepest : c.exportLimit.bound = .ok deepest) (e : Endpoint) (v : Json) :
    Answers c e outline deepest v (e.answer c v) := by
  cases hs : Submission.ofJson v with
  | error r =>
    have hnone : ∀ s spans, ¬ Understands e v s spans := by
      intro s spans hu
      rw [understands_iff, hs] at hu
      cases hu.1
    simpa only [Endpoint.answer, hs] using answers_refusal r hnone
  | ok s =>
    cases e with
    | validate =>
      have hu : Understands .validate v s true := understands_iff.mpr ⟨hs, fun he => by cases he⟩
      refine answers_shown hu (fun hdeep => by cases hdeep.1) ?_
      simp only [Endpoint.answer, hs]
      exact reportResponse_eq houtline _
    | parse =>
      cases hspans : spans? v with
      | error r =>
        have hnone : ∀ s spans, ¬ Understands .parse v s spans := by
          intro s spans hu
          rw [understands_iff, hspans] at hu
          cases hu.2 rfl
        simpa only [Endpoint.answer, hs, hspans] using answers_refusal r hnone
      | ok spans =>
        have hu : Understands .parse v s spans := understands_iff.mpr ⟨hs, fun _ => hspans⟩
        have htree : Endpoint.parse.answer c v =
            treeResponse c.exportLimit spans (s.document c.dialect) := by
          simp only [Endpoint.answer, hs, hspans]
        rw [htree]
        by_cases hdeep : TooDeep .parse deepest (s.document c.dialect)
        · exact answers_tooDeep hu hdeep (treeResponse_of_tooDeep hdeepest hdeep)
        · exact answers_shown hu hdeep (treeResponse_of_not_tooDeep hdeepest hdeep)

end Answer

/-- The path of an endpoint. -/
def Endpoint.path : Endpoint → Text
  | validate => "/api/v1/isml/validate".toList
  | parse => "/api/v1/isml/parse".toList

/-- A request that posts JSON to an endpoint, within the limit on its size. -/
structure Request.Posts (r : Request) (c : Configuration) (e : Endpoint) (v : Json) : Prop where
  method : r.method = .post
  location : r.location = e.path
  headers : r.hasBrokenHeader = false
  json : r.hasJson = true
  size : r.isTooLarge c.bodyLimit = .ok false
  value : r.bodyText.bind Json.parse? = some v

section Posts

variable {c : Configuration} {r : Request} {e : Endpoint} {v : Json}

theorem askedPath_path (e : Endpoint) : askedPath e.path = .ok e.path := by
  have h : (askedPath e.path).toOption = some e.path := by cases e <;> decide +kernel
  cases hp : askedPath e.path with
  | error error => simp [hp, Except.toOption] at h
  | ok path => simpa [hp, Except.toOption] using h

theorem ofPath_path (e : Endpoint) : Route.ofPath .post e.path = .found (.endpoint e) := by
  cases e <;> decide +kernel

/-- The service answers a request to an endpoint as the endpoint does the value that it is given. -/
theorem Request.Posts.respond_eq (h : r.Posts c e v) :
    (respond c r).map Reply.response = endpointResponse c e (some v) := by
  have hbody : bodyResponse c e r = endpointResponse c e (some v) := by
    simp only [bodyResponse, h.json, if_true, h.size, Request.json?, h.value]
  have hpath : pathResponse c r e.path = endpointResponse c e (some v) := by
    simp only [pathResponse, resourceResponse, h.method, ofPath_path, hbody]
  simp only [respond, h.location, askedPath_path, h.headers, hpath, Bool.false_eq_true, if_false]
  cases endpointResponse c e (some v) <;> rfl

theorem endpointResponse_object (c : Configuration) (e : Endpoint)
    (fields : List (String × Json)) : endpointResponse c e (some (.object fields)) =
      .ok (e.answer c (.object fields)) := by
  cases fields <;> rfl

/-- What counts as false is taken for an object without fields. -/
theorem endpointResponse_of_not_isTrue (c : Configuration) (e : Endpoint) (hv : v.isTrue = false) :
    endpointResponse c e (some v) = .ok (e.answer c (.object [])) := by
  rw [endpointResponse, Option.filter_some_neg hv, Option.getD_none]

theorem endpointResponse_other (c : Configuration) (e : Endpoint) (hv : v.isTrue = true)
    (hobject : ∀ fields, v ≠ .object fields) :
    endpointResponse c e (some v) = .error (.noFields v.typeName) := by
  rw [endpointResponse, Option.filter_some_pos hv, Option.getD_some]
  cases v with
  | object fields => exact (hobject fields rfl).elim
  | null | bool | int | real | string | array => rfl

theorem get?_of_not_isTrue (hv : v.isTrue = false) (key : String) : v.get? key = none := by
  cases v with
  | object fields =>
    obtain rfl : fields = [] := by simpa [Json.isTrue] using hv
    rfl
  | null | bool | int | real | string | array => rfl

end Posts

/-- An endpoint answers all JSON that is an object or counts as false. To data that it does not
understand it answers with status 400, to templates that are too deep to be exported with status
422, and to all others with the report or the tree. Of other JSON it finds no fields, and does not
answer. This is what the service answers to requests that post the JSON. -/
theorem endpoint_answers {c : Configuration} {e : Endpoint} {v : Json}
    {outline deepest : Option Int} (houtline : c.outlineLimit.bound = .ok outline)
    (hdeepest : c.exportLimit.bound = .ok deepest) :
    ((v.isTrue = false ∨ ∃ fields, v = .object fields) → ∃ response,
      endpointResponse c e (some v) = .ok response ∧ Answers c e outline deepest v response) ∧
    (v.isTrue = true → (∀ fields, v ≠ .object fields) →
      endpointResponse c e (some v) = .error (.noFields v.typeName)) ∧
    ∀ r : Request, r.Posts c e v →
      (respond c r).map Reply.response = endpointResponse c e (some v) := by
  refine ⟨?_, endpointResponse_other c e, fun r hr => hr.respond_eq⟩
  rintro (hfalse | ⟨fields, rfl⟩)
  · refine ⟨_, endpointResponse_of_not_isTrue c e hfalse,
      (answers_answer houtline hdeepest e (.object [])).congr ?_⟩
    intro key
    rw [get?_of_not_isTrue hfalse]
    rfl
  · exact ⟨_, endpointResponse_object c e fields, answers_answer houtline hdeepest e _⟩

/-- JSON for an endpoint. -/
def post (e : Endpoint) (body : String) : Request where
  location := e.path
  contentType := some "application/json".toList
  body := body

def nestedBody : String := "\x7b\"template_content\": \"<p><b>x</b></p>\"\x7d"

theorem posts_nestedBody : ∃ v, (post .parse nestedBody).Posts { exportLimit := .upTo 1 } .parse v ∧
    Understands .parse v ⟨"<p><b>x</b></p>".toList, none⟩ true := by
  have hvalue : ((post .parse nestedBody).bodyText.bind Json.parse?).isSome = true := by
    decide +kernel
  obtain ⟨v, hv⟩ := Option.isSome_iff_exists.mp hvalue
  have hcontent : ((post .parse nestedBody).bodyText.bind Json.parse?).bind
      (fun v => (v.get? "template_content").bind Json.string?) = some "<p><b>x</b></p>" := by
    decide +kernel
  have hother : ((post .parse nestedBody).bodyText.bind Json.parse?).any
      (fun v => (v.get? "source_name").isNone && (v.get? "include_spans").isNone) = true := by
    decide +kernel
  rw [hv] at hcontent hother
  rw [Option.bind_some] at hcontent
  obtain ⟨content, hget, htext⟩ := Option.bind_eq_some_iff.mp hcontent
  obtain ⟨hname, hspans⟩ : v.get? "source_name" = none ∧ v.get? "include_spans" = none := by
    simpa using hother
  have hstring : content = .string "<p><b>x</b></p>" := by
    cases content with
    | string t => rw [Option.some.inj htext]
    | null | bool | int | real | array | object => cases htext
  refine ⟨v, ⟨rfl, rfl, by decide +kernel, by decide +kernel, ?_, hv⟩, ?_, .missing hname, ?_⟩
  · exact congrArg Except.ok (by decide +kernel)
  · rw [hget, hstring, String.ofList_toList]
  · intro _
    exact .missing hspans

theorem endpoint_answers_nested : ∃ v reply,
    (post .parse nestedBody).Posts { exportLimit := .upTo 1 } .parse v ∧
      respond { exportLimit := .upTo 1 } (post .parse nestedBody) = .ok reply ∧
      reply.response.status = 422 := by
  obtain ⟨v, hposts, hu⟩ := posts_nestedBody
  have hobject : ∃ fields, v = .object fields := by
    cases v with
    | object fields => exact ⟨fields, rfl⟩
    | null | bool | int | real | string | array => cases hu.content
  obtain ⟨hanswer, -, hservice⟩ := endpoint_answers (c := { exportLimit := .upTo 1 }) (e := .parse)
    (v := v) rfl rfl
  obtain ⟨response, hresponse, hanswers⟩ := hanswer (.inr hobject)
  have hstatus := (hanswers.tooDeep _ _ hu).mpr ⟨rfl, 1, rfl, by decide +kernel⟩
  have hreply := (hservice _ hposts).trans hresponse
  cases hrespond : respond { exportLimit := .upTo 1 } (post .parse nestedBody) with
  | error error =>
    rw [hrespond] at hreply
    cases hreply
  | ok reply =>
    rw [hrespond] at hreply
    cases hreply
    exact ⟨v, reply, hposts, rfl, hstatus⟩

theorem posts_list : (post .validate "[1]").Posts {} .validate (.array [.int 1]) where
  method := rfl
  location := rfl
  headers := by decide +kernel
  json := by decide +kernel
  size := congrArg Except.ok (by decide +kernel)
  value := by
    have htext : (post .validate "[1]").bodyText = some "[1]".toList := by decide +kernel
    rw [htext]
    rfl

/-- A list has no template for an endpoint to understand, but one that is not empty is not refused:
it is not answered. -/
theorem respond_list : (post .validate "[1]").Posts {} .validate (.array [.int 1]) ∧
    (∀ s spans, ¬ Understands .validate (.array [.int 1]) s spans) ∧
    respond {} (post .validate "[1]") = .error (.noFields "list") := by
  refine ⟨posts_list, ?_, ?_⟩
  · intro s spans hu
    cases hu.content
  · have hreply := posts_list.respond_eq
    cases hrespond : respond {} (post .validate "[1]") with
    | ok reply =>
      rw [hrespond] at hreply
      cases hreply
    | error error =>
      rw [hrespond] at hreply
      exact congrArg Except.error (Except.error.inj hreply)

end StoreMarkup.Service
