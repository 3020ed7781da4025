import ItemStore.Engine.AllOrNothing
import ItemStore.Engine.Page
import ItemStore.Engine.SingleItem

/-!
The engine as a whole: each request has an answer, and a session goes from request to request.
-/

namespace ItemStore
namespace Engine

def answer (engine : Engine) : Request → Action Response
  | .getItem request => return .item (← engine.getItem request)
  | .putItem request => return .written (← engine.putItem request)
  | .updateItem request => return .written (← engine.updateItem request)
  | .deleteItem request => return .written (← engine.deleteItem request)
  | .query request => return .page (← engine.query request)
  | .scan request => return .page (← engine.scan request)
  | .batchGet request => return .batchGet (← engine.batchGet request)
  | .batchWrite request => return .batchWrite (← engine.batchWrite request)
  | .transactGet request => return .transactGet (← engine.transactGet request)
  | .transactWrite request => return .transactWrite (← engine.transactWrite request)

def handle (engine : Engine) (request : Request) (session : Session) :
    Except Failure Response × Session :=
  (engine.answer request).run.run session

def run (engine : Engine) (requests : List Request) (session : Session) : Session :=
  requests.foldl (fun session request => (engine.handle request session).2) session

end Engine
end ItemStore
