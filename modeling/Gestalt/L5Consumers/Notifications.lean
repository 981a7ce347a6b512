import Gestalt.Core.Json
import Gestalt.L1Shared.Http
import Gestalt.L5Consumers.Consumer

/-!
# notification-service

`handle_event` turns a message into at most one call of `notify`, which logs the
text and, if a Slack webhook is configured, posts it there. The post ends as the
webhook likes (`Response`); `notify` logs an `httpx.HTTPError`, looks at nothing
else, and returns.

The log lines are left out, and so is a webhook URL that `httpx` cannot parse.
-/
namespace Gestalt.Notifications

/-- mirrors services/notification-service/app/config.py:13 -/
structure Settings extends Kafka.Settings where
  slackWebhookUrl : String := ""

variable (repr : Json → String)

/-- The texts `handle_event` calls `notify` with; `none`: it raises first.
mirrors services/notification-service/app/consumer.py:42-54 -/
def handleEvent (raw : ByteArray) : Option (List String) :=
  match Json.decode raw with
  | some (.obj event) =>
    let eventType := Json.get event "type"
    let orderId := (Json.get event "orderId").text repr
    if eventType.isStr "order.created" then some ["Order " ++ orderId ++ " received"]
    else if eventType.isStr "order.paid" then
      some ["Order " ++ orderId ++ " paid — " ++ (Json.get event "amount").text repr]
    else if eventType.isStr "order.failed" then
      some ["Order " ++ orderId ++ " failed: " ++ (Json.get event "reason").text repr]
    else some []
  -- malformed, or without a `get`
  | _ => none

/-- What `notify` posts to the webhook. Whatever comes back from a URL that can be
parsed, `notify` returns: a status is not looked at, and an `httpx.HTTPError` is
logged. (`httpx.InvalidURL` is not an `HTTPError`: with a malformed
`SLACK_WEBHOOK_URL` the code posts nothing, and every call raises.)
mirrors services/notification-service/app/notifier.py:14-20 -/
def notify (cfg : Settings) (text : String) (_answer : Response) : Option String × Except String Unit :=
  if cfg.slackWebhookUrl ≠ "" then (some text, .ok ()) else (none, .ok ())

end Gestalt.Notifications
