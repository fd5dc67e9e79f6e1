import Framestep.Core.Frontend
import Framestep.Proofs.Session.Showing
import Framestep.Proofs.Video.Rows

/-!
# Pictures given to the frontend

A picture goes from the machine through the mailbox of a session, through the callback in front of
the frontend, and without its padding to the frontend.  The main statement,
`Session.frame_uploads_picture`, follows it all the way: whatever was shown before, the frontend is
given the pixels that the machine has handed over, byte for byte and once, if the picture has the
declared size, and nothing otherwise.
-/

namespace Framestep

/-- Whether a call gives a picture to the frontend. -/
def CoreCall.isShown : CoreCall → Bool
  | .shown _ _ => true
  | _ => false

namespace Frontend

/-- The pictures that the frontend is given in a host frame. -/
def uploads (frame : FrameResult Endpoint) : List CoreCall :=
  (frame.calls.flatMap outward).filter CoreCall.isShown

/-- Pictures are given to the frontend by the calls that show one, and these do nothing else. -/
theorem filter_isShown_outward (calls : List (Call Endpoint)) :
    (calls.flatMap outward).filter CoreCall.isShown =
      (calls.filter Call.isVideo).flatMap outward := by
  induction calls with
  | nil => rfl
  | cons call calls ih =>
      rw [List.flatMap_cons, List.filter_append, ih, List.filter_cons]
      cases call with
      | video who view =>
          have hshown : (outward (.video who view)).filter CoreCall.isShown =
              outward (.video who view) := by
            apply List.filter_eq_self.mpr
            intro call hcall
            cases who with
            | frontend size =>
                simp only [outward] at hcall
                split at hcall
                · rw [List.mem_singleton.mp hcall]
                  rfl
                · cases hcall
            | machine => cases hcall
          rw [hshown]
          rfl
      | level who source =>
          have hnone : (outward (.level who source)).filter CoreCall.isShown = [] := by
            simp [outward, CoreCall.isShown]
          rw [hnone]
          rfl
      | _ => rfl

theorem comesBack_of_not_video {call : Call Endpoint} (hvideo : call.isVideo = false) :
    comesBack call = true := by
  cases call <;> first | rfl | cases hvideo

/-- A session is wired to a frontend when its registry is. -/
theorem wire_eq_self_iff {size : Size} {session : Session Endpoint} :
    wire size session = session ↔ (wire size session).registry = session.registry := by
  constructor
  · intro hwired
    exact congrArg Session.registry hwired
  · intro hregistry
    exact congrArg (fun registry => { session with registry }) hregistry

/-- Rows that lie one after the other have the bytes of the pixels in their order. -/
theorem getElem?_of_rows {layout : Layout} {pixels buffer : Array UInt8}
    (hrows : layout.rowBytes ≤ layout.stride)
    (hbytes : ∀ y < layout.height, ∀ j < layout.rowBytes, buffer[y * layout.rowBytes + j]? =
      (firstOf pixels layout.byteCount)[y * layout.stride + j]?)
    {y x k : Nat} (hy : y < layout.height) (hx : x < layout.width) (hk : k < 4) :
    buffer[4 * (y * layout.width + x) + k]? = pixels[y * layout.stride + 4 * x + k]? := by
  have hwide : layout.rowBytes = 4 * layout.width := rfl
  have hj : 4 * x + k < layout.rowBytes := by omega
  have hplace : y * layout.stride + (4 * x + k) < layout.byteCount := View.place_lt hy hj hrows
  have hfrom : 4 * (y * layout.width + x) + k = y * layout.rowBytes + (4 * x + k) := by
    have hrow : y * layout.rowBytes = 4 * (y * layout.width) := Nat.mul_left_comm y 4 _
    omega
  rw [hfrom, hbytes y hy (4 * x + k) hj, getElem?_firstOf pixels hplace, Nat.add_assoc]

/-- A picture of the declared size is given to the frontend without its padding, and one of
another size is not; either way the callback comes back. -/
theorem upload?_of_covers (size : Size) {layout : Layout} {pixels : Array UInt8}
    (hrows : layout.rowBytes ≤ layout.stride) (hwidth : 0 < layout.width)
    (hcovers : layout.byteCount ≤ pixels.size) (hallocated : layout.byteCount ≤ maxAllocation) :
    let view : View := ⟨layout, firstOf pixels layout.byteCount⟩
    (layout.size ≠ size → upload? size view = some none) ∧
      (layout.size = size → ∃ buffer, upload? size view = some (some buffer) ∧
        (∀ scratch, ∃ left, view.packed? scratch = some ⟨buffer, left⟩) ∧
        buffer.size = 4 * (size.width * size.height) ∧
        ∀ y < size.height, ∀ x < size.width, ∀ k < 4,
          buffer[4 * (y * size.width + x) + k]? = pixels[y * layout.stride + 4 * x + k]?) := by
  intro view
  constructor
  · intro hother
    rw [upload?, if_neg hother]
  · rintro rfl
    have hpixels : 0 < layout.rowBytes := Nat.mul_pos (by decide) hwidth
    have hthere : view.layout.byteCount ≤ view.pixels.size := by
      simp only [view, size_firstOf]
      omega
    obtain ⟨buffer, hpacked, hsize, hbytes⟩ :=
      View.packed?_of_covers hrows hpixels hthere hallocated
    refine ⟨buffer, ?_, hpacked, ?_, ?_⟩
    · obtain ⟨left, hleft⟩ := hpacked #[]
      rw [upload?, if_pos rfl, hleft]
      rfl
    · rw [hsize]
      exact Nat.mul_assoc 4 layout.width layout.height
    · intro y hy x hx k hk
      exact getElem?_of_rows hrows hbytes hy hx hk

end Frontend

/-! ## A picture on its way -/

/-- What a mailbox has checked when it takes a picture. -/
theorem Mailbox.bounds_of_submit {box : Mailbox} (hbox : box.WellFormed) {layout : Layout}
    {pixels : Array UInt8} {memory : Memory}
    (htaken : (box.submit layout pixels memory).1 = .done ()) :
    layout.rowBytes ≤ layout.stride ∧ layout.byteCount ≤ pixels.size ∧
      layout.byteCount ≤ maxAllocation := by
  have hroom := box.room_le hbox memory
  rw [submit_eq] at htaken
  cases hrefusal : layout.refusal? box.closed pixels.size (box.room memory) with
  | some fault =>
      rw [hrefusal] at htaken
      cases htaken
  | none =>
      obtain ⟨hrows, hcovers, -, hobtained⟩ := (Layout.refusal?_eq_none_iff hroom).mp hrefusal
      exact ⟨hrows, hcovers, hobtained.trans hroom⟩

namespace Session

variable {κ : Type}

/-- Leaves the mailbox alone, and the callback for pictures. -/
def Op.SparesPicture : Op κ → Prop
  | .start .. | .attach _ => True
  | .register channel _ => channel ≠ .video
  | .attachMachine startup => ∀ op ∈ startup.feeds, op.isPicture = false
  | .produce op => op.isPicture = false
  | _ => False

/-- A running session with this mailbox and this callback for pictures. -/
structure Offers (session : Session κ) (floor : Nat) (box : Mailbox) (who : Option κ) : Prop
    extends Keeps session floor box where
  video : session.registry.video = who

variable {session : Session κ} {floor : Nat} {box : Mailbox} {who : Option κ}

/-- A picture that a session with the callbacks of the frontend takes is on offer from then on, and
its rows and its storage have been checked. -/
theorem offers_produce {session : Session Endpoint} (h : session.feed.Running floor) {size : Size}
    (hwired : Frontend.wire size session = session) {layout : Layout} {pixels : Array UInt8}
    (hwidth : 0 < layout.width) (hheight : 0 < layout.height) {memory : Memory}
    (htaken : (session.produce (.submit layout pixels memory)).1 = .done .nothing) :
    let box := (session.feed.mailbox.submit layout pixels memory).2
    (session.produce (.submit layout pixels memory)).2.Offers floor box
        (some (.frontend size)) ∧
      layout.rowBytes ≤ layout.stride ∧ layout.byteCount ≤ pixels.size ∧
      layout.byteCount ≤ maxAllocation ∧
      box.collect.1 = .done (.presented ⟨layout, firstOf pixels layout.byteCount⟩) := by
  intro box
  have hsubmitted : (session.feed.mailbox.submit layout pixels memory).1 = .done () := by
    simp only [produce, Feed.perform, Feed.submit] at htaken
    cases hanswer : (session.feed.mailbox.submit layout pixels memory).1 with
    | done answer => rfl
    | refused fault =>
        rw [hanswer] at htaken
        cases htaken
    | aborted =>
        rw [hanswer] at htaken
        cases htaken
  obtain ⟨hrows, hcovers, hallocated⟩ := Mailbox.bounds_of_submit h.mailbox hsubmitted
  have hvideo : session.registry.video = some (.frontend size) :=
    (congrArg Registry.video (Frontend.wire_eq_self_iff.mp hwired)).symm
  have hoffers : (session.produce (.submit layout pixels memory)).2.Offers floor box
      (some (.frontend size)) :=
    ⟨⟨Feed.running_perform h (.submit layout pixels memory), rfl⟩, hvideo⟩
  exact ⟨hoffers, hrows, hcovers, hallocated,
    Mailbox.collect_submit h.mailbox hsubmitted hwidth hheight⟩

theorem Op.SparesPicture.sparesMailbox {op : Op κ} (hop : op.SparesPicture) :
    op.SparesMailbox := by
  cases op with
  | attachMachine startup => exact hop
  | produce op => exact hop
  | teardown => exact hop
  | frame host => exact hop
  | _ => trivial

theorem offers_perform (h : session.Offers floor box who) {op : Op κ} (hop : op.SparesPicture) :
    (session.perform op).session.Offers floor box who := by
  refine ⟨keeps_perform h.toKeeps hop.sparesMailbox, ?_⟩
  cases op with
  | start launch memory =>
      simp only [perform, start_of_ready launch memory h.running.phase]
      exact h.video
  | register channel who =>
      cases channel with
      | video => exact (hop rfl).elim
      | _ => exact h.video
  | attach sink => exact h.video
  | attachMachine startup =>
      simp only [perform, attachMachine]
      split
      · split <;> exact h.video
      · exact h.video
  | produce op => exact h.video
  | _ => exact hop.elim

theorem offers_performAll (h : session.Offers floor box who) {ops : List (Op κ)}
    (hops : ∀ op ∈ ops, op.SparesPicture) : (session.performAll ops).2.Offers floor box who :=
  performAll_of (P := fun session => session.Offers floor box who)
    (fun _ op hop hsession => offers_perform hsession (hops op hop)) h

end Session

/-! ## Frontends and machines that come back -/

namespace Frontend

/-- Whoever is called in the first stage comes back, whatever is done in the course of it on the
feed of a running session. -/
def FeedsThrough (frontend : Frontend) : Prop :=
  ∀ past call, call.isVideo = false → call.isAudio = false →
    ∀ (feed : Feed) floor, feed.Running floor →
      (feed.performAll (frontend.feeds past call)).complete = true

/-- Nobody turns to the mailbox while a picture is shown, and nobody is aborted on the feed of a
running session in the course of a picture or of sound. -/
structure TakesThrough (frontend : Frontend) : Prop where
  spares : ∀ past call, call.isVideo = true →
    ∀ op ∈ frontend.feeds past call, op.isPicture = false
  completes : ∀ past call, call.isVideo = true → ∀ (feed : Feed) floor, feed.Running floor →
    (feed.performAll (frontend.feeds past call)).complete = true
  sound : frontend.host.PlaysThrough

variable {frontend : Frontend}

theorem attends (hfeeds : frontend.FeedsThrough) : frontend.host.Attends :=
  ⟨fun _ _ hvideo _ => comesBack_of_not_video hvideo, hfeeds⟩

/-- A picture that can be packed is taken. -/
theorem takes_picture (h : frontend.TakesThrough) {call : Call Endpoint}
    (hvideo : call.isVideo = true) (hpacked : comesBack call = true) (past : List (Call Endpoint)) :
    frontend.host.comesBack past call = true ∧
      ∀ (feed : Feed) floor, feed.Running floor →
        (feed.performAll (frontend.host.does past call)).complete = true := by
  have hspares := h.spares past call hvideo
  have hnone : (frontend.feeds past call).any Feed.Op.isPicture = false := by
    simpa using hspares
  have hall : (frontend.feeds past call).takeWhile (fun op => !op.isPicture) =
      frontend.feeds past call := by
    rw [List.takeWhile_eq_self_iff]
    simpa using hspares
  constructor
  · have hreturns : frontend.host.returns past call = true := hpacked
    have hfeeds : (frontend.host.feeds past call).any Feed.Op.isPicture = false := hnone
    rw [Host.comesBack, hreturns, hfeeds, Bool.and_false]
    rfl
  · intro feed floor hfeed
    have hdoes : frontend.host.does past call = frontend.feeds past call := by
      rw [Host.does, if_pos hvideo]
      exact hall
    rw [hdoes]
    exact h.completes past call hvideo feed floor hfeed

end Frontend

namespace Session

/-! ## The law -/

/-- A picture that is handed over to a session wired to a frontend is what the next frame shows,
whatever came before, and the callback in front of the frontend comes back from it.  If it has the
declared size the frontend is given one buffer, with the bytes of its pixels and without its
padding, and otherwise nothing; and the bytes do not hang on what the buffer for the rows held
before. -/
theorem frame_uploads_picture {settings : Settings} {asksGui : Bool} {session : Session Endpoint}
    (hcreate : create settings asksGui = .done session) (history : List (Op Endpoint)) {size : Size}
    {reached : Session Endpoint} (hreached : reached = (session.performAll history).2)
    (hready : reached.feed.phase = .ready) (hwired : Frontend.wire size reached = reached)
    (layout : Layout) (hwidth : 0 < layout.width) (hheight : 0 < layout.height)
    {pixels : Array UInt8} {memory : Memory}
    (htaken : (reached.produce (.submit layout pixels memory)).1 = .done .nothing)
    {between : List (Op Endpoint)} (hbetween : ∀ op ∈ between, op.SparesPicture)
    {later : Session Endpoint}
    (hlater : later =
      ((reached.produce (.submit layout pixels memory)).2.performAll between).2)
    (frontend : Frontend)
    (hspares : (later.begun.forwardInput frontend.host).progress.fed.LeavesMailbox) :
    let frame := later.frame frontend.host
    let view : View := ⟨layout, firstOf pixels layout.byteCount⟩
    ((∀ known, later.lastSize = some known → known.FitsInt32) → frontend.FeedsThrough →
        later.Waits frontend.host) ∧
      (later.Waits frontend.host →
        Frontend.comesBack (.video (.frontend size) view) = true ∧
        (∀ report, frame.outcome = .done report → report.presented = true) ∧
        (frontend.TakesThrough → ∃ report, frame.outcome = .done report) ∧
        (layout.size ≠ size → Frontend.uploads frame = []) ∧
        (layout.size = size → ∃ buffer, Frontend.uploads frame = [.shown size buffer] ∧
          (∀ scratch, ∃ left, view.packed? scratch = some ⟨buffer, left⟩) ∧
          buffer.size = 4 * (size.width * size.height) ∧
          ∀ y < size.height, ∀ x < size.width, ∀ k < 4,
            buffer[4 * (y * size.width + x) + k]? = pixels[y * layout.stride + 4 * x + k]?)) := by
  intro frame view
  obtain ⟨floor, hrunning⟩ : ∃ floor, reached.feed.Running floor := by
    rw [hreached] at hready ⊢
    exact running_of_ready hcreate history hready
  obtain ⟨hoffered, hrows, hcovers, hallocated, hfound⟩ :=
    offers_produce hrunning hwired hwidth hheight htaken
  have hoffers : later.Offers floor (reached.feed.mailbox.submit layout pixels memory).2
      (some (.frontend size)) := hlater ▸ offers_performAll hoffered hbetween
  have hpresent : later.registry.present view = [.video (.frontend size) view] := by
    rw [Registry.present, hoffers.video]
  obtain ⟨hother, hsame⟩ : _ ∧ _ :=
    Frontend.upload?_of_covers size hrows hwidth hcovers hallocated
  have hback : Frontend.comesBack (.video (.frontend size) view) = true := by
    by_cases hsize : layout.size = size
    · obtain ⟨buffer, hbuffer, -⟩ := hsame hsize
      rw [Frontend.comesBack, hbuffer]
      rfl
    · rw [Frontend.comesBack, hother hsize]
      rfl
  refine ⟨fun hsize hfeeds => waits_of_attends hoffers.running hsize (Frontend.attends hfeeds), ?_⟩
  intro hwaits
  have hpresents := presents_of_waits hoffers.toKeeps hwaits hspares hfound
  have huploads : Frontend.uploads frame =
      Frontend.outward (.video (.frontend size) view) := by
    rw [Frontend.uploads, Frontend.filter_isShown_outward, hpresents.shown, hpresent,
      List.flatMap_singleton]
  refine ⟨hback, hpresents.reported, ?_, ?_, ?_⟩
  · intro htakes
    apply ends_of_waits hoffers.toKeeps hwaits hspares hfound ?_ htakes.sound
    intro past call hcall
    rw [hpresent, List.mem_singleton] at hcall
    rw [hcall]
    obtain ⟨hcomes, hcompletes⟩ := Frontend.takes_picture htakes rfl hback past
    exact ⟨hcomes, fun feed hfeed => hcompletes feed floor hfeed⟩
  · intro hsize
    rw [huploads, Frontend.outward, hother hsize]
  · intro hsize
    obtain ⟨buffer, hbuffer, hpacked, hlength, hbytes⟩ := hsame hsize
    refine ⟨buffer, ?_, hpacked, hlength, hbytes⟩
    rw [huploads, Frontend.outward, hbuffer]

/-- The law at work on rows with padding, after a picture of another size whose bytes are still in
the storage.  A frame is queued whenever anyone is called. -/
theorem frame_uploads_picture_of_padded_rows :
    let settings : Settings :=
      { audioCapacity := 2, audioCeiling := 3, audioBatch := 1, batchesPerFrame := 1 }
    let session : Session Endpoint := unstarted settings false
    let frontend : Frontend := ⟨fun _ => 0, fun _ _ => [.push [7, -7] 1]⟩
    let history : List (Op Endpoint) :=
      [.start {}, .register .video (.frontend ⟨1, 2⟩), .register .batch (.frontend ⟨1, 2⟩),
        .register .poll (.frontend ⟨1, 2⟩), .register .level (.frontend ⟨1, 2⟩),
        .produce (.submit ⟨3, 1, 14⟩ (Array.replicate 14 9)), .frame frontend.host]
    let reached := (session.performAll history).2
    let pixels : Array UInt8 := #[1, 2, 3, 4, 5, 6, 7, 8, 9, 10, 11, 12]
    let memory : Memory := { largest := 12 }
    let later := ((reached.produce (.submit ⟨1, 2, 6⟩ pixels memory)).2.performAll
      [.attach .machine, .produce (.push [5, -5] 1)]).2
    create settings false = .done session ∧ reached.feed.phase = .ready ∧
      Frontend.wire ⟨1, 2⟩ reached = reached ∧
      (reached.produce (.submit ⟨1, 2, 6⟩ pixels memory)).1 = .done .nothing ∧
      later.Waits frontend.host ∧
      (∃ report, (later.frame frontend.host).outcome = .done report ∧ report.presented = true) ∧
      (∃ buffer, Frontend.uploads (later.frame frontend.host) = [.shown ⟨1, 2⟩ buffer] ∧
        ∀ y < 2, ∀ x < 1, ∀ k < 4,
          buffer[4 * (y * 1 + x) + k]? = pixels[y * 6 + 4 * x + k]?) ∧
      Frontend.uploads (later.frame frontend.host) =
        [.shown ⟨1, 2⟩ #[1, 2, 3, 4, 7, 8, 9, 10]] := by
  intro settings session frontend history reached pixels memory later
  have hcreate : create settings false = .done session := rfl
  have hready : reached.feed.phase = .ready := by decide +kernel
  have hwired : Frontend.wire ⟨1, 2⟩ reached = reached :=
    Frontend.wire_eq_self_iff.mpr (by decide +kernel)
  have htaken : (reached.produce (.submit ⟨1, 2, 6⟩ pixels memory)).1 = .done .nothing := by
    decide +kernel
  have hbetween : ∀ op ∈ [Op.attach .machine, Op.produce (.push [5, -5] 1)],
      (op : Op Endpoint).SparesPicture := by
    simp [Op.SparesPicture, Feed.Op.isPicture]
  have hspares : (later.begun.forwardInput frontend.host).progress.fed.LeavesMailbox := by
    unfold Feed.Log.LeavesMailbox
    decide +kernel
  have hsize : ∀ known, later.lastSize = some known → known.FitsInt32 := by
    have hlast : later.lastSize = some ⟨3, 1⟩ := by decide +kernel
    rw [hlast]
    rintro known ⟨⟩
    exact ⟨by decide, by decide⟩
  have hqueues (past : List (Call Endpoint)) (call : Call Endpoint) {feed : Feed}
      {queue : List StereoFrame} (hfeed : feed.Queues queue) :
      (feed.performAll (frontend.feeds past call)).complete = true :=
    Feed.complete_push hfeed [7, -7] (by decide) .ample
  have hfeeds : frontend.FeedsThrough := by
    intro past call _ _ feed floor hfeed
    obtain ⟨queue, hqueue⟩ := hfeed.queues
    exact hqueues past call hqueue
  have htakes : frontend.TakesThrough := by
    refine ⟨?_, ?_, ⟨?_, ?_⟩⟩
    · simp [frontend, Feed.Op.isPicture]
    · intro past call _ feed floor hfeed
      obtain ⟨queue, hqueue⟩ := hfeed.queues
      exact hqueues past call hqueue
    · intro past call haudio
      exact Frontend.comesBack_of_not_video (call.isVideo_of_isAudio haudio)
    · intro past call _ feed queue hfeed
      exact hqueues past call hfeed
  have hbytes : Frontend.uploads (later.frame frontend.host) =
      [.shown ⟨1, 2⟩ #[1, 2, 3, 4, 7, 8, 9, 10]] := by decide +kernel
  have hreached : reached = (session.performAll history).2 := rfl
  have hlater : later = ((reached.produce (.submit ⟨1, 2, 6⟩ pixels memory)).2.performAll
      [.attach .machine, .produce (.push [5, -5] 1)]).2 := rfl
  clear_value later reached
  obtain ⟨hwaits, huploads⟩ := frame_uploads_picture hcreate history hreached hready hwired
    ⟨1, 2, 6⟩ (by decide) (by decide) htaken hbetween hlater frontend hspares
  have hlaterWaits : later.Waits frontend.host := hwaits hsize hfeeds
  obtain ⟨-, hreported, hended, -, hsame⟩ := huploads hlaterWaits
  obtain ⟨report, hreport⟩ := hended htakes
  obtain ⟨buffer, hshown, -, -, hplaces⟩ := hsame rfl
  exact ⟨hcreate, hready, hwired, htaken, hlaterWaits, ⟨report, hreport, hreported report hreport⟩,
    ⟨buffer, hshown, hplaces⟩, hbytes⟩

end Session

end Framestep
