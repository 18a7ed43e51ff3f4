import VrxServer.Main.Startup
import VrxServer.SdrConnect.Connect
import VrxServer.SdrPlay.Lifecycle

/-! The program on the backend its configuration names.

Both backends are what `main` relies on (`Upstream.correct`), whatever the calls out of the program
return. So whatever fails and whoever takes a number that is free again, every listening socket
is closed once, by its own server, and none is left when `main` is over (`listeners_closed_once`);
and a chunk reaches both endpoints of every receiver that makes samples of it, and none that is
destroyed unless an Uninit has failed (`samples_reach_all`). -/
namespace VrxServer.Main
open Base Config
open SdrConnect (SdrConnectClient)

/-- What the calls of the upstream client return. -/
structure World where
  vendor : SdrPlay.Vendor
  handsOver : vendor.HandsOver
  network : WebSocket.Network
  calls : ℕ → SdrConnect.SendCall
  undefinedCast : ℚ → UInt64

/-- What `main`'s pointer to an `IqSource` points to. -/
inductive Upstream where
  | sdrplay (session : SdrPlay.Session)
  /-- With the reads that are left to the read thread, where it is started. -/
  | sdrConnect (client : SdrConnectClient) (readThread : Option (List (List UInt8)))

namespace Upstream

/-- `none` where `*config.sdrconnect` has nothing to give. -/
def construct (cfg : AppConfig) : Option Upstream :=
  match cfg.connection with
  | .api => some (.sdrplay ⟨SdrPlay.Client.construct cfg.sdrplay cfg.centerFrequencyHz cfg.sampleRateHz, []⟩)
  | .sdrConnect => cfg.sdrconnect.map fun connCfg => .sdrConnect (SdrConnectClient.construct cfg connCfg) none

def connect (w : World) : Upstream → Connect × Upstream
  | .sdrplay session =>
    match SdrPlay.connect w.vendor session with
    | .ok _ t => (.returned, .sdrplay t)
    | .error (.threw _) t => (.threw, .sdrplay t)
    | .error _ t => (.lost, .sdrplay t)
  | .sdrConnect client readThread =>
    match SdrConnect.connect w.undefinedCast client w.network w.calls .fresh with
    | .ok left _ => (.returned, .sdrConnect client (some left))
    | .error _ _ => (.threw, .sdrConnect client readThread)

/-- The destructors do this too. -/
def close (w : World) : Upstream → Upstream
  | .sdrplay session =>
    match SdrPlay.close w.vendor session with
    | .ok _ t | .error _ t => .sdrplay t
  | .sdrConnect client _ => .sdrConnect client none

/-- The driver's thread calls back, or the read thread. -/
def streaming : Upstream → Bool
  | .sdrplay session => session.streams
  | .sdrConnect _ readThread => readThread.isSome

/-- `close` only logs that Uninit has failed; the read thread it joins. -/
def refused : Upstream → Bool
  | .sdrplay session => session.uninitFailed
  | .sdrConnect _ _ => false

def source : IqSource Upstream World := ⟨connect, close, streaming, refused⟩

def Idle : Upstream → Prop
  | .sdrplay session => SdrPlay.Holds [] session ∧ session.streams = false
  | .sdrConnect _ readThread => readThread = none

def Live : Upstream → Prop
  | .sdrplay session => SdrPlay.Holds SdrPlay.Resource.order session
  | .sdrConnect _ readThread => readThread ≠ none

def Closed : Upstream → Prop
  | .sdrplay session => SdrPlay.Holds [] session ∧ (session.streams = true → session.uninitFailed = true)
  | .sdrConnect _ readThread => readThread = none

theorem idle_construct {cfg : AppConfig} {upstream : Upstream} (h : construct cfg = some upstream) : upstream.Idle := by
  unfold construct at h
  split at h
  · obtain rfl := Option.some.inj h
    exact ⟨⟨rfl, rfl, rfl, rfl, nofun⟩, rfl⟩
  · obtain ⟨connCfg, -, rfl⟩ := Option.map_eq_some_iff.mp h
    rfl

theorem connect_sdrplay (w : World) {session : SdrPlay.Session} (h : Idle (.sdrplay session)) :
    ((connect w (.sdrplay session)).1 = .returned → Live (connect w (.sdrplay session)).2) ∧
      ((connect w (.sdrplay session)).1 = .threw → Idle (connect w (.sdrplay session)).2) := by
  obtain ⟨hheld, hstreams⟩ := h
  have hends := SdrPlay.connect_holds w.vendor w.handsOver hheld
  have hquiet := SdrPlay.connect_streams w.vendor hstreams
  cases hconnect : SdrPlay.connect w.vendor session with
  | ok u t =>
    simp only [connect, hconnect]
    exact ⟨fun _ => hends.of_ok hconnect, nofun⟩
  | error e t =>
    obtain ⟨held, ht, hthrew⟩ := hends.of_error hconnect
    cases e with
    | threw what =>
      obtain rfl := hthrew what rfl
      simp only [connect, hconnect]
      exact ⟨nofun, fun _ => ⟨ht, hquiet.of_error hconnect what rfl⟩⟩
    | hung =>
      simp only [connect, hconnect]
      exact ⟨nofun, nofun⟩
    | crashed =>
      simp only [connect, hconnect]
      exact ⟨nofun, nofun⟩

theorem connect_sdrConnect (w : World) (client : SdrConnectClient) :
    ((connect w (.sdrConnect client none)).1 = .returned → Live (connect w (.sdrConnect client none)).2) ∧
      ((connect w (.sdrConnect client none)).1 = .threw → Idle (connect w (.sdrConnect client none)).2) := by
  cases hconnect : SdrConnect.connect w.undefinedCast client w.network w.calls .fresh with
  | ok left t =>
    simp only [connect, hconnect]
    exact ⟨fun _ => Option.some_ne_none left, nofun⟩
  | error e t =>
    simp only [connect, hconnect]
    exact ⟨nofun, fun _ => rfl⟩

theorem close_sdrplay (w : World) {session : SdrPlay.Session} (h : SdrPlay.Holds SdrPlay.Resource.order session) :
    Closed (close w (.sdrplay session)) := by
  have hends := SdrPlay.close_holds w.vendor h
  have hstops := SdrPlay.close_streams w.vendor h fun _ => .inl (by decide)
  cases hclose : SdrPlay.close w.vendor session with
  | ok u t =>
    simp only [close, hclose]
    exact ⟨hends.of_ok hclose, hstops.of_ok hclose⟩
  | error e t => exact (hends.of_error hclose).elim

/-- A close of a session that is not open does nothing. -/
theorem close_sdrplay_closed (w : World) {session : SdrPlay.Session} (h : SdrPlay.Holds [] session) :
    close w (.sdrplay session) = .sdrplay session := by
  simp only [close, SdrPlay.close_closed w.vendor h.opened]

/-- **Both backends are what `main` relies on.** -/
def correct : source.Correct where
  Idle := Idle
  Live := Live
  Closed := Closed
  quiet upstream h := by
    cases upstream with
    | sdrplay session => exact h.2
    | sdrConnect client readThread => rw [show readThread = none from h]; rfl
  returns w upstream h := by
    cases upstream with
    | sdrplay session => exact (connect_sdrplay w h).1
    | sdrConnect client readThread =>
      obtain rfl : readThread = none := h
      exact (connect_sdrConnect w client).1
  throws w upstream h := by
    cases upstream with
    | sdrplay session => exact (connect_sdrplay w h).2
    | sdrConnect client readThread =>
      obtain rfl : readThread = none := h
      exact (connect_sdrConnect w client).2
  closes w upstream h := by
    cases upstream with
    | sdrplay session => exact close_sdrplay w h
    | sdrConnect client readThread => rfl
  idle_closes w upstream h := by
    cases upstream with
    | sdrplay session =>
      have hsame : source.close w (.sdrplay session) = .sdrplay session := close_sdrplay_closed w h.1
      rwa [hsame]
    | sdrConnect client readThread => rfl
  closed_closes w upstream h := by
    cases upstream with
    | sdrplay session =>
      have hsame : source.close w (.sdrplay session) = .sdrplay session := close_sdrplay_closed w h.1
      rwa [hsame]
    | sdrConnect client readThread => rfl
  stopped upstream h hstreaming := by
    cases upstream with
    | sdrplay session => exact h.2 hstreaming
    | sdrConnect client readThread =>
      obtain rfl : readThread = none := h
      cases hstreaming

/-- The loader reads the section that the backend is constructed from. -/
theorem construct_loaded {lib : YamlLib} {path : String} {file : Except String Yaml} {cfg : AppConfig}
    (h : loadConfig lib path file = .ok cfg) : ∃ upstream, construct cfg = some upstream := by
  have hconnection := (loadConfig_valid h).connection
  unfold construct
  cases hmode : cfg.connection with
  | api => exact ⟨_, rfl⟩
  | sdrConnect =>
    obtain ⟨connCfg, hconn⟩ := Option.ne_none_iff_exists'.mp (hconnection.mp hmode)
    rw [hconn]
    exact ⟨_, rfl⟩

end Upstream

/-! ### Every run of a configuration that loads -/

namespace Program

/-- The states `main` comes to once the configuration is loaded. -/
def Reaches (cfg : AppConfig) (events : List (ProgramEvent World)) (s : Program Upstream) : Prop :=
  ∃ upstream, Upstream.construct cfg = some upstream ∧
    (machine Upstream.source cfg.virtualReceivers).run (initial cfg.virtualReceivers upstream) events = some s

theorem Reaches.sound {cfg : AppConfig} {events : List (ProgramEvent World)} {s : Program Upstream}
    (h : Reaches cfg events s) : Sound cfg.virtualReceivers Upstream.correct s := by
  obtain ⟨upstream, hconstruct, hrun⟩ := h
  exact sound_run (C := Upstream.correct) (Upstream.idle_construct hconstruct) hrun

/-- **No descriptor is closed twice or by the wrong hand, and no listening socket is left**: not where a
start fails half way, nor where the backend fails, nor behind a signal, and whoever takes the number
of a socket that a failed start has closed. -/
theorem listeners_closed_once (lib : YamlLib) (path : String) (file : Except String Yaml) (cfg : AppConfig)
    (hload : loadConfig lib path file = .ok cfg) :
    (∃ upstream, Upstream.construct cfg = some upstream) ∧
      ∀ events s, Reaches cfg events s → s.ClosedOnce cfg.virtualReceivers :=
  ⟨Upstream.construct_loaded hload, fun _ _ h => h.sound.closedOnce⟩

/-- A document with two receivers on one port. -/
def clashDocument : Yaml :=
  .map [
    (.scalar "center_frequency_hz", .scalar "100000000"),
    (.scalar "sample_rate_hz", .scalar "2000000"),
    (.scalar "sdrplay", .null),
    (.scalar "virtual_receivers", .seq [clashReceiver, clashReceiver])]
where
  clashReceiver : Yaml := .map [
    (.scalar "name", .scalar "vrx"),
    (.scalar "tcp_port", .scalar "1234"),
    (.scalar "center_frequency_hz", .scalar "100000000"),
    (.scalar "sample_rate_hz", .scalar "250000")]

def clashConfig : AppConfig :=
  {sampleConfig 100000000 with virtualReceivers := [⟨"vrx", 1234, 0, 100000000, 250000⟩, ⟨"vrx", 1234, 0, 100000000, 250000⟩]}

theorem loadConfig_clash : loadConfig sampleLib "config.yaml" (.ok clashDocument) = .ok clashConfig := by
  have hchecked : clashConfig.virtualReceivers.forM (checkRate sampleLib 2000000) = .ok () := by
    refine forM_ok.mpr fun vrx hvrx => forM_ok.mp (sampleConfig_checked 100000000) vrx ?_
    simpa [clashConfig, sampleConfig] using hvrx
  show (clashConfig.virtualReceivers.forM (checkRate sampleLib 2000000) >>= fun _ => .ok clashConfig) = _
  rw [hchecked]
  rfl

/-- A device that is attached and starts its stream. -/
def sampleWorld : World where
  vendor := {SdrPlay.sampleVendor [⟨"1812002F80", 4, 0, 0, none⟩] with init := 0}
  handsOver _ _ h := nomatch h
  network := SdrConnect.sampleNetwork
  calls := SdrConnect.sampleCalls
  undefinedCast _ := 0

/-- The second bind fails, and the first server's accept thread gets its number for a client. -/
theorem listeners_closed_once_clash : (∃ upstream, Upstream.construct clashConfig = some upstream) ∧
    ∃ s, Reaches clashConfig [.socket (some 3), .bind true, .listen true, .spawn true, .socket (some 4), .bind false,
        .openOther 4, .stop, .stop, .stop, .closeOther 4, .destroy, .destroy, .destroy, .destroy,
        .destroySource sampleWorld] s ∧
      s.phase = .exited 1 ∧ s.ClosedOnce clashConfig.virtualReceivers := by
  obtain ⟨hconstruct, hclosed⟩ := listeners_closed_once sampleLib "config.yaml" (.ok clashDocument) clashConfig loadConfig_clash
  have hreaches : Reaches clashConfig [.socket (some 3), .bind true, .listen true, .spawn true, .socket (some 4), .bind false,
      .openOther 4, .stop, .stop, .stop, .closeOther 4, .destroy, .destroy, .destroy, .destroy,
      .destroySource sampleWorld] _ := ⟨_, rfl, rfl⟩
  exact ⟨hconstruct, _, hreaches, rfl, hclosed _ _ hreaches⟩

/-- **Every chunk reaches both endpoints of every receiver that makes samples of it**, once and in the
order of the receivers, and those of no other. It comes while every endpoint is wired to its
receiver, and while nothing is destroyed unless an Uninit has failed; only then can a chunk find
something destroyed, and the process is lost. -/
theorem samples_reach_all (cfg : AppConfig) (events : List (ProgramEvent World)) (s : Program Upstream)
    (h : Reaches cfg events s) :
    ((s.delivered = (events.flatMap ProgramEvent.chunks).map fun yields =>
          (wired cfg.virtualReceivers).filter fun i => yields i.1) ∨
        s.phase = .lost ∧ s.source.refused = true) ∧
      (s.source.streaming = true →
        s.Wired (endpoints cfg.virtualReceivers) ∧ (s.Intact ∨ s.source.refused = true)) := by
  obtain ⟨upstream, hconstruct, hrun⟩ := h
  exact ⟨delivered_run (C := Upstream.correct) (Upstream.idle_construct hconstruct) hrun,
    (Reaches.sound ⟨upstream, hconstruct, hrun⟩).streaming⟩

/-- The sample configuration with a SpyServer endpoint beside its rtl_tcp endpoint. -/
def pairConfig : AppConfig := {sampleConfig 100000000 with virtualReceivers := [⟨"vrx", 1234, 5555, 100000000, 250000⟩]}

/-- Up to a chunk of which the receiver makes samples. -/
def pairStarts : List (ProgramEvent World) :=
  [.socket (some 3), .bind true, .listen true, .spawn true, .socket (some 4), .bind true, .listen true, .spawn true,
    .connect sampleWorld, .chunk fun _ => true]

/-- Of two chunks that come while the servers are being stopped the receiver makes samples only of the last. -/
theorem samples_reach_all_stopping :
    ∃ s, Reaches pairConfig (pairStarts ++ [.signal, .stop, .chunk fun _ => false, .chunk fun _ => true]) s ∧
      s.delivered = [[(0, .rtlTcp), (0, .spyServer)], [], [(0, .rtlTcp), (0, .spyServer)]] ∧ s.Intact := by
  have hreaches : Reaches pairConfig (pairStarts ++ [.signal, .stop, .chunk fun _ => false, .chunk fun _ => true]) _ :=
    ⟨_, rfl, rfl⟩
  obtain ⟨hdelivered, hintact⟩ := samples_reach_all _ _ _ hreaches
  exact ⟨_, hreaches, hdelivered.resolve_right nofun, (hintact rfl).2.resolve_right nofun⟩

/-- Where Uninit fails, a chunk can come to receivers that are destroyed. -/
example : ∃ s, Reaches pairConfig (pairStarts ++ [.signal, .stop, .stop, .stop,
    .close {sampleWorld with vendor := {sampleWorld.vendor with uninit := 1}, handsOver := sampleWorld.handsOver},
    .destroy, .destroy, .destroy, .destroy, .chunk fun _ => true]) s ∧ s.phase = .lost :=
  ⟨_, ⟨_, rfl, rfl⟩, rfl⟩

end Program

end VrxServer.Main
