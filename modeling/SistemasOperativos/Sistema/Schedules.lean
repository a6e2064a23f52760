import SistemasOperativos.Sistema.Code
import SistemasOperativos.Threads.Run

/-! Pieces of the schedules that are executed. -/
namespace Sistema

open Threads.Program

abbrev Schedule := List (Choice Write Tid)

/-- `main` creates every thread and comes to its loop. -/
def boot : Schedule := burst .main 25

/-- A reporter goes from the head of its loop to `sem_wait(&sem_msg[i])`, when no
branch is taken on its way. -/
def engineReport (n : ℕ) : Schedule := burst (.pricipalEngineThread n) 27
def manualReport : Schedule := burst .sigHandlerManual 9
def gyroReports : Schedule := burst (.signalGyro 0) 16 ++ burst (.signalGyro 1) 16
def landingReport : Schedule := burst .signalLandingCheck 17
def otherReports : Schedule :=
  gyroReports ++ burst .signalRestartLanding 17 ++ burst .signalExploteRocket 14

variable {s : State}

/-- A step at a known location that is no point of cancellation. -/
theorem step_at {t : Tid} {l : Loc t} (hr : s.Running t) (hl : s.loc t = l)
    (hp : (code t l).cancelPoint = false) (he : (code t l).Enabled s.sem) :
    sistema.Step s (.exec t l true) (sistema.effect s t true) := by
  subst hl
  refine .exec true hr (fun hc => ?_) he
  cases hp.symm.trans hc

end Sistema
