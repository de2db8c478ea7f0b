import TtLive.Client

/-!
# Requests for a page

`fetch_gift_list_impl` and `fetch_room_info` read the room id, make one request and return what they make of its
response.
-/

namespace TtLive
open Prog

/-- What `fetch_room_info` makes of the response. -/
def room_info_of (cfg : Config) : Except Exn HttpResponse → Except Exn StreamInfo
  | .error e => .error e
  | .ok resp => if resp.status ≠ 200 ∨ resp.body = [] then .ok {} else cfg.parse_room_info resp.body

/-- What `fetch_gift_list_impl` makes of the response. -/
def gift_list_of (cfg : Config) : Except Exn HttpResponse → Except Exn (List GiftInfo)
  | .error e => .error e
  | .ok resp => if resp.status ≠ 200 ∨ resp.body = [] then .ok [] else cfg.parse_gift_list resp.body

/-- A request for the page of the client's room. -/
def room_request (cfg : Config) (page : Page) (path : Bytes) (room_id : Int) : NetOp :=
  .get page (UnsignedUrl.text {
    base := web_defaults.kWebcastUrl ++ path
    params := web_defaults.base_web_params ++ [(lit "room_id", to_string room_id)] }) (referer cfg)

theorem answer_eq {page page' : Page} {url url' : Bytes} {hs hs' : ParamList} {a b : Except Exn HttpResponse}
    (h : (⟨.net_end (.get page url hs), a⟩ : Ev Resp) = ⟨.net_end (.get page' url' hs'), b⟩) : a = b := by
  cases h
  rfl

section
variable {α : Type} {cfg : Config} {page : Page} {path : Bytes} {read : Except Exn HttpResponse → Except Exn α}

def page_fetch (cfg : Config) (page : Page) (path : Bytes) (read : Except Exn HttpResponse → Except Exn α) :
    Code (Except Exn α) :=
  .act .room_id fun room_id => .act (.net_begin (room_request cfg page path room_id)) fun _ =>
    .act (.net_end (room_request cfg page path room_id)) fun answer => .ret (read answer)

/-- A run in which the request was answered with this body, and status 200. -/
def Answered (cfg : Config) (page : Page) (path : Bytes) (tr : List (Ev Resp)) (body : Bytes) : Prop :=
  ∃ room_id : Int, ⟨.net_end (room_request cfg page path room_id), .ok ⟨200, body⟩⟩ ∈ tr

theorem page_fetch_result {tr : List (Ev Resp)} {body : Bytes} {r : Except Exn α}
    (h : Runs (page_fetch cfg page path read) tr (.ret r)) (ha : Answered cfg page path tr body) :
    r = read (.ok ⟨200, body⟩) := by
  obtain ⟨room_id', hmem⟩ := ha
  cases h with
  | @act _ _ room_id _ _ h =>
    cases h with
    | @act _ _ _ _ _ h =>
      cases h with
      | @act _ _ answer _ _ h =>
        cases h with
        | refl =>
          simp only [List.mem_cons, List.not_mem_nil, or_false] at hmem
          rcases hmem with hev | hev | hev
          · cases hev
          · cases hev
          · rw [answer_eq hev]

end

/-- What a fetch does with a response: nothing with one that failed or is empty. -/
theorem run_parsed {α : Type} (resp : HttpResponse) (absent : α) (parse : Bytes → Except Exn α) :
    ExceptT.run (m := Code) (if resp.status ≠ 200 ∨ resp.body = [] then pure absent
        else ExceptT.mk (pure (parse resp.body))) =
      .ret (if resp.status ≠ 200 ∨ resp.body = [] then .ok absent else parse resp.body) := by
  by_cases hresp : resp.status ≠ 200 ∨ resp.body = []
  · rw [if_pos hresp, if_pos hresp]
    rfl
  · rw [if_neg hresp, if_neg hresp]
    rfl

theorem fetch_gift_list_impl_run (cfg : Config) :
    (fetch_gift_list_impl cfg).run = page_fetch cfg .gift_list (lit "/gift/list/") (gift_list_of cfg) := by
  refine congrArg (Prog.act Act.room_id) (funext fun room_id => ?_)
  refine congrArg (Prog.act (Act.net_begin (room_request cfg .gift_list _ room_id))) (funext fun _ => ?_)
  refine congrArg (Prog.act (Act.net_end (room_request cfg .gift_list _ room_id))) (funext fun answer => ?_)
  cases answer with
  | error e => rfl
  | ok resp => exact run_parsed resp [] cfg.parse_gift_list

theorem fetched_gift_list {cfg : Config} {tr : List (Ev Resp)} {body : Bytes} {r : Except Exn (List GiftInfo)}
    (hbody : body ≠ []) (ha : Answered cfg .gift_list (lit "/gift/list/") tr body)
    (h : Runs (fetch_gift_list_impl cfg).run tr (.ret r)) : r = cfg.parse_gift_list body := by
  rw [fetch_gift_list_impl_run] at h
  rw [page_fetch_result h ha, gift_list_of, if_neg (by simpa using hbody)]

end TtLive
